import Intercept.Toml.Moment
import Intercept.Toml.Quoted
import Intercept.Toml.Table

/-!
Reading a TOML document. The whole document is checked; of its values the integers are kept.
-/

namespace Intercept.Toml

def isBareKeyChar (c : Char) : Bool := c.isAlphanum || c = '-' || c = '_'

/-- Reads one part of a key: a basic string, a literal string, or bare characters. -/
def readKeyPart (s : Chars) : Option (String × Chars) :=
  match s with
  | '"' :: s => (readBasic (s.length + 1) s).map fun (cs, s) => (String.ofList cs, s)
  | '\'' :: s => (readLiteral s).map fun (cs, s) => (String.ofList cs, s)
  | s =>
    let bare := s.takeWhile isBareKeyChar
    if bare.isEmpty then none else some (String.ofList bare, s.dropWhile isBareKeyChar)

/-- Reads the parts of a key with the points between them and the blanks around them. -/
def readKeyParts : (fuel : Nat) → Chars → Option (List String × Chars)
  | 0, _ => none
  | fuel + 1, s => do
    let (part, s) ← readKeyPart (skipBlanks s)
    match skipBlanks s with
    | '.' :: s =>
      let (parts, s) ← readKeyParts fuel s
      some (part :: parts, s)
    | s => some ([part], s)

/-- A key has less parts than this, and a value nests less deep. -/
def depthLimit : Nat := 80

/-- Reads a key: the parts that name tables, and the last part. -/
def readKey (s : Chars) : Option (List String × String × Chars) := do
  let (parts, s) ← readKeyParts (s.length + 1) s
  guard (parts.length < depthLimit)
  let last ← parts.getLast?
  some (parts.dropLast, last, s)

/-- Reads a number, a date or a time. -/
def readScalar (s : Chars) : Option (Value × Chars) :=
  (skipMoment s).map (.other, ·) <|> (skipFloat s).map (.other, ·) <|>
    (readInteger s).map fun (n, s) => (.integer n, s)

mutual
/-- Reads a value. `depth` is one more than the number of arrays and inline tables that may still be
opened. -/
def readValue : (fuel depth : Nat) → Chars → Option (Value × Chars)
  | 0, _, _ => none
  | fuel + 1, depth, s =>
    match s with
    | '[' :: s => if depth ≤ 1 then none else (skipItems fuel (depth - 1) s).map (.other, ·)
    | '\x7b' :: s =>
      if depth ≤ 1 then none
      else match skipBlanks s with
        | '\x7d' :: s => some (.other, s)
        | s => (skipPairs fuel (depth - 1) [] s).map (.other, ·)
    | '"' :: _ | '\'' :: _ => (skipString s).map (.other, ·)
    | 't' :: s => (after? "rue".toList s).map (.other, ·)
    | 'f' :: s => (after? "alse".toList s).map (.other, ·)
    | s => readScalar s

/-- Skips the items of an array and the closing bracket. A comma may stand behind the last item. -/
def skipItems : (fuel depth : Nat) → Chars → Option Chars
  | 0, _, _ => none
  | fuel + 1, depth, s => do
    match ← skipLines (s.length + 1) s with
    | ']' :: s => some s
    | s =>
      let (_, s) ← readValue fuel depth s
      match ← skipLines (s.length + 1) s with
      | ',' :: s => skipItems fuel depth s
      | ']' :: s => some s
      | _ => none

/-- Skips the pairs of an inline table, of which there is one at least, and the closing brace. A key
may be assigned only once. -/
def skipPairs : (fuel depth : Nat) → Entries → Chars → Option Chars
  | 0, _, _, _ => none
  | fuel + 1, depth, entries, s => do
    let (path, key, s) ← readKey s
    let s ← after? ['='] s
    let (value, s) ← readValue fuel depth (skipBlanks s)
    let entries ← assignAt path key value entries
    match skipBlanks s with
    | ',' :: s => skipPairs fuel depth entries s
    | '\x7d' :: s => some s
    | _ => none
end

/-- A document of which a part was read: its entries, and the path of the table that is open. -/
structure Draft where
  entries : Entries := []
  path : List String := []

/-- Changes the table that a path leads to. -/
def Draft.change (d : Draft) (path : List String) (f : Entries → Option Entries) : Option Draft :=
  (descend .implied (fun _ => f) path .header d.entries).map fun entries => { d with entries }

/-- Reads a line that assigns a value. -/
def readPair (d : Draft) (s : Chars) : Option (Draft × Chars) := do
  let (path, key, s) ← readKey s
  let s ← after? ['='] s
  let s := skipBlanks s
  let (value, s) ← readValue (s.length + 1) depthLimit s
  let s ← endLine? s
  let d ← d.change d.path (assignAt path key value)
  some (d, s)

/-- Reads the header of a table after its opening bracket. -/
def readHeader (d : Draft) (s : Chars) : Option (Draft × Chars) := do
  let (path, key, s) ← readKey s
  let s ← after? [']'] s
  let s ← endLine? s
  let d ← d.change path (openTable key)
  some ({ d with path := path ++ [key] }, s)

/-- Reads the header of an array of tables after its opening brackets. -/
def readMemberHeader (d : Draft) (s : Chars) : Option (Draft × Chars) := do
  let (path, key, s) ← readKey s
  let s ← after? [']', ']'] s
  let s ← endLine? s
  let d ← d.change path (openMember key)
  some ({ d with path := path ++ [key] }, s)

/-- Reads a line: one that is empty but for a comment, a header, or an assignment. -/
def readLine (d : Draft) (s : Chars) : Option (Draft × Chars) :=
  match s with
  | '#' :: _ | '\n' :: _ | '\r' :: _ => (endLine? s).map (d, ·)
  | '[' :: '[' :: s => readMemberHeader d s
  | '[' :: s => readHeader d s
  | s => readPair d s

/-- Reads line after line up to the end. -/
def readLines : (fuel : Nat) → Draft → Chars → Option Draft
  | 0, _, _ => none
  | fuel + 1, d, s =>
    match skipBlanks s with
    | [] => some d
    | s => do
      let (d, s) ← readLine d s
      readLines fuel d s

/-- Reads a document, in front of which a byte order mark may stand. -/
def read? (text : String) : Option Entries :=
  let s := match text.toList with
    | '\ufeff' :: s => s
    | s => s
  (readLines (s.length + 1) {} s).map (·.entries)

end Intercept.Toml
