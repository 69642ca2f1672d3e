/-!
The tables of a TOML document. A key is assigned once, a table is defined once, and what a table may
still be given depends on how it came into being.
-/

namespace Intercept.Toml

/-- A value. Of all that is not an integer only the place in the document is kept. -/
inductive Value where
  | integer (n : Int)
  | other
  deriving DecidableEq, Repr

/-- How a table came into being. -/
inductive Origin where
  /-- It has a header of its own. -/
  | header
  /-- The header of a table within it implies it. -/
  | implied
  /-- A dotted key implies it. -/
  | dotted
  deriving DecidableEq, Repr

/-- What a key stands for. -/
inductive Item where
  | value (v : Value)
  | table (origin : Origin) (entries : List (String × Item))
  /-- An array of tables, each with a header of its own. -/
  | tables (members : List (List (String × Item)))

abbrev Entries := List (String × Item)

/-- Puts an item in the place of another one, or at the end. -/
def put (key : String) (item : Item) : Entries → Entries
  | [] => [(key, item)]
  | (k, i) :: rest => if k = key then (k, item) :: rest else (k, i) :: put key item rest

/-- Descends along a path and changes the table that it leads to. A table that is missing on the way
comes into being as `implies` says; of an array of tables the last one is meant. A dotted key may
not lead through a table with a header of its own. -/
def descend (implies : Origin) (change : Origin → Entries → Option Entries) :
    (path : List String) → Origin → Entries → Option Entries
  | [], origin, entries => change origin entries
  | key :: path, _, entries =>
    match entries.lookup key with
    | none => do
      let inner ← descend implies change path implies []
      some (put key (.table implies inner) entries)
    | some (.table origin inner) => do
      guard (implies != .dotted || origin != .header)
      let inner ← descend implies change path origin inner
      some (put key (.table origin inner) entries)
    | some (.tables members) => do
      let inner ← descend implies change path .header (members.getLastD [])
      some (put key (.tables (members.dropLast ++ [inner])) entries)
    | some (.value _) => none

/-- Assigns a value to a new key of a table. A dotted key assigns only within tables that dotted
keys imply. -/
def assign (key : String) (value : Value) (isDotted : Bool) (origin : Origin) (entries : Entries) :
    Option Entries := do
  guard (isDotted == (origin == .dotted))
  guard (entries.lookup key).isNone
  some (put key (.value value) entries)

/-- Assigns a value to a key, of which all parts but the last name tables. -/
def assignAt (path : List String) (key : String) (value : Value) (entries : Entries) :
    Option Entries :=
  descend .dotted (assign key value !path.isEmpty) path .header entries

/-- Opens the table of a header. Only a table that other headers imply may be there before. -/
def openTable (key : String) (entries : Entries) : Option Entries :=
  match entries.lookup key with
  | none => some (put key (.table .header []) entries)
  | some (.table .implied inner) => some (put key (.table .header inner) entries)
  | some _ => none

/-- Opens a further table of an array of tables. -/
def openMember (key : String) (entries : Entries) : Option Entries :=
  match entries.lookup key with
  | none => some (put key (.tables [[]]) entries)
  | some (.tables members) => some (put key (.tables (members ++ [[]])) entries)
  | some _ => none

end Intercept.Toml
