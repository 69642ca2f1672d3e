import Intercept.Json.Printer
import Intercept.Json.Skip

/-!
The messages a harness can wait for: how a body is decoded and how a decoded message is shown.
-/

namespace Intercept

/-- A type of messages. -/
structure MessageFormat (M : Type) where
  /-- The message in a body; a body without one is malformed. -/
  decode? : Body → Option M
  /-- The message as a JSON value. -/
  view : M → Json

namespace MessageFormat

/-- The text of a message. -/
def text (f : MessageFormat M) (m : M) : String := (f.view m).print

/-- Messages that are any JSON value. -/
def value : MessageFormat Json where
  decode? := Json.ofBody?
  view := id

end MessageFormat

/-- An order: a number of 32 bits and an optional text. -/
structure Order where
  id : Int
  bar : Option String
  deriving DecidableEq, Repr

namespace Order
open Json

def view (o : Order) : Json :=
  .ofMembers [("id", .num (.int o.id)), ("bar", match o.bar with | none => .null | some s => .str s)]

/-- The fields of an order as far as they were read. -/
structure Fields where
  id : Option Int := none
  bar : Option (Option String) := none

/-- Reads an integer literal of 32 bits. -/
def readId (s : Symbols) : Option (Int × Symbols) := do
  let (n, s) ← readNumeral (skipBlanks s)
  let .int i ← n.value? | none
  guard (Int32.minValue.toInt ≤ i && i ≤ Int32.maxValue.toInt)
  some (i, s)

/-- Reads a text or null. -/
def readBar (s : Symbols) : Option (Option String × Symbols) :=
  match skipBlanks s with
  | some 'n' :: s => (afterWord? "ull".toList s).map (none, ·)
  | some '"' :: s => (readString s).map fun (t, s) => (some t, s)
  | _ => none

/-- Reads the value of the named field, which must not have been read before; the value of any other
field is skipped. -/
def readField (name : String) (f : Fields) (s : Symbols) : Option (Fields × Symbols) :=
  if name = "id" then
    if f.id.isSome then none else (readId s).map fun (i, s) => ({ f with id := some i }, s)
  else if name = "bar" then
    if f.bar.isSome then none else (readBar s).map fun (t, s) => ({ f with bar := some t }, s)
  else (skipValue (s.length + 1) s).map (f, ·)

/-- Reads the fields of an object, of which there is one at least, and the closing brace. -/
def readFields : (fuel : Nat) → Fields → Symbols → Option (Fields × Symbols)
  | 0, _, _ => none
  | fuel + 1, f, s => do
    let some '"' :: s := skipBlanks s | none
    let (name, s) ← readString s
    let some ':' :: s := skipBlanks s | none
    let (f, s) ← readField name f s
    match skipBlanks s with
    | some ',' :: s => readFields fuel f s
    | some '\x7d' :: s => some (f, s)
    | _ => none

/-- Reads an order written as an array of its one or two fields. -/
def readTuple (s : Symbols) : Option (Fields × Symbols) := do
  let (i, s) ← readId s
  match skipBlanks s with
  | some ',' :: s =>
    let (t, s) ← readBar s
    let some ']' :: s := skipBlanks s | none
    some ({ id := some i, bar := some t }, s)
  | some ']' :: s => some ({ id := some i }, s)
  | _ => none

/-- Reads the fields of an order, written as an object or as an array. -/
def readOrder (s : Symbols) : Option (Fields × Symbols) :=
  match skipBlanks s with
  | some '[' :: s => readTuple s
  | some '\x7b' :: s =>
    match skipBlanks s with
    | some '\x7d' :: s => some ({}, s)
    | s => readFields (s.length + 1) {} s
  | _ => none

/-- The order in a body; it must have a number, and nothing but blanks may follow it. -/
def decode? (body : Body) : Option Order := do
  let (f, rest) ← readOrder (Utf8.decode body)
  guard (skipBlanks rest).isEmpty
  let id ← f.id
  some ⟨id, f.bar.join⟩

end Order

def MessageFormat.order : MessageFormat Order where
  decode? := Order.decode?
  view := Order.view

end Intercept
