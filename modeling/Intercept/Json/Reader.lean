import Intercept.Json.Numeral
import Intercept.Text.Hex
import Intercept.Text.Utf8

/-!
Reading JSON. A text is read strictly: the whole of it must be one value, the strings must be
UTF-8 without lone surrogates or control characters, and a value nests less than 128 deep.
-/

namespace Intercept.Json

def isBlank (s : Option Char) : Bool :=
  s == some ' ' || s == some '\n' || s == some '\t' || s == some '\r'

/-- What follows the blanks at the begin of a text. -/
def skipBlanks (s : Symbols) : Symbols := s.dropWhile isBlank

/-- The text after `word`, if it begins with it. -/
def afterWord? : List Char → Symbols → Option Symbols
  | [], s => some s
  | c :: cs, some d :: rest => if c = d then afterWord? cs rest else none
  | _, _ => none

/-- Reads the four hexadecimal digits of an escape. -/
def readHex4 : Symbols → Option (Nat × Symbols)
  | some a :: some b :: some c :: some d :: rest => do
    let a ← Text.hexDigit? a
    let b ← Text.hexDigit? b
    let c ← Text.hexDigit? c
    let d ← Text.hexDigit? d
    some (((a * 16 + b) * 16 + c) * 16 + d, rest)
  | _ => none

/-- The character that an escape of one letter stands for. -/
def shortEscape? : Char → Option Char
  | '"' => some '"'
  | '\\' => some '\\'
  | '/' => some '/'
  | 'b' => some '\x08'
  | 'f' => some '\x0c'
  | 'n' => some '\n'
  | 'r' => some '\r'
  | 't' => some '\t'
  | _ => none

/-- Reads an escape of four digits. A high surrogate must be followed by an escaped low one, with
which it stands for one character. -/
def readUnicodeEscape (s : Symbols) : Option (Char × Symbols) := do
  let (n, s) ← readHex4 s
  if 0xDC00 ≤ n && n ≤ 0xDFFF then none
  else if 0xD800 ≤ n && n ≤ 0xDBFF then
    match s with
    | some '\\' :: some 'u' :: s =>
      let (m, s) ← readHex4 s
      guard (0xDC00 ≤ m && m ≤ 0xDFFF)
      some (Char.ofNat (0x10000 + (n - 0xD800) * 0x400 + (m - 0xDC00)), s)
    | _ => none
  else some (Char.ofNat n, s)

/-- Reads the escape after a backslash. -/
def readEscape : Symbols → Option (Char × Symbols)
  | some 'u' :: s => readUnicodeEscape s
  | some c :: s => (shortEscape? c).map (·, s)
  | _ => none

/-- Reads a string up to its closing quotation mark, each step consuming a symbol at least. -/
def readChars : (fuel : Nat) → Symbols → Option (List Char × Symbols)
  | 0, _ => none
  | fuel + 1, s =>
    match s with
    | some '"' :: s => some ([], s)
    | some '\\' :: s => do
      let (c, s) ← readEscape s
      let (cs, s) ← readChars fuel s
      some (c :: cs, s)
    | some c :: s => do
      guard (0x20 ≤ c.toNat)
      let (cs, s) ← readChars fuel s
      some (c :: cs, s)
    | _ => none

/-- Reads a string after its opening quotation mark. -/
def readString (s : Symbols) : Option (String × Symbols) :=
  (readChars (s.length + 1) s).map fun (cs, s) => (String.ofList cs, s)

mutual
/-- Reads a value. `depth` is one more than the number of containers that may still be opened. -/
def readValue : (fuel depth : Nat) → Symbols → Option (Json × Symbols)
  | 0, _, _ => none
  | fuel + 1, depth, s =>
    match skipBlanks s with
    | some '[' :: s =>
      if depth ≤ 1 then none
      else match skipBlanks s with
        | some ']' :: s => some (.arr [], s)
        | s => (readItems fuel (depth - 1) s).map fun (items, s) => (.arr items, s)
    | some '\x7b' :: s =>
      if depth ≤ 1 then none
      else match skipBlanks s with
        | some '\x7d' :: s => some (ofMembers [], s)
        | s => (readMembers fuel (depth - 1) s).map fun (members, s) => (ofMembers members, s)
    | some '"' :: s => (readString s).map fun (t, s) => (.str t, s)
    | some 'n' :: s => (afterWord? "ull".toList s).map (.null, ·)
    | some 't' :: s => (afterWord? "rue".toList s).map (.bool true, ·)
    | some 'f' :: s => (afterWord? "alse".toList s).map (.bool false, ·)
    | s => do
      let (n, s) ← readNumeral s
      let v ← n.value?
      some (.num v, s)

/-- Reads the items of an array, of which there is one at least, and the closing bracket. -/
def readItems : (fuel depth : Nat) → Symbols → Option (List Json × Symbols)
  | 0, _, _ => none
  | fuel + 1, depth, s => do
    let (item, s) ← readValue fuel depth s
    match skipBlanks s with
    | some ',' :: s =>
      let (items, s) ← readItems fuel depth s
      some (item :: items, s)
    | some ']' :: s => some ([item], s)
    | _ => none

/-- Reads the members of an object, of which there is one at least, and the closing brace. -/
def readMembers : (fuel depth : Nat) → Symbols → Option (List (String × Json) × Symbols)
  | 0, _, _ => none
  | fuel + 1, depth, s => do
    let some '"' :: s := skipBlanks s | none
    let (name, s) ← readString s
    let some ':' :: s := skipBlanks s | none
    let (value, s) ← readValue fuel depth s
    match skipBlanks s with
    | some ',' :: s =>
      let (members, s) ← readMembers fuel depth s
      some ((name, value) :: members, s)
    | some '\x7d' :: s => some ([(name, value)], s)
    | _ => none
end

/-- The number of containers that a value may not reach. -/
def depthLimit : Nat := 128

/-- Reads a text that is one value between blanks. -/
def parseSymbols? (s : Symbols) : Option Json := do
  let (value, rest) ← readValue (s.length + 1) depthLimit s
  guard (skipBlanks rest).isEmpty
  some value

def ofBody? (body : Body) : Option Json := parseSymbols? (Utf8.decode body)

def ofText? (text : String) : Option Json := parseSymbols? (text.toList.map some)

end Intercept.Json
