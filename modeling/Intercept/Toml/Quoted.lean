import Intercept.Text.Hex
import Intercept.Toml.Line

/-!
The strings of TOML: basic strings with escapes, literal strings without, and both over several
lines.
-/

namespace Intercept.Toml

/-- The character that an escape of one letter stands for. -/
def shortEscape? : Char → Option Char
  | 'b' => some '\x08'
  | 't' => some '\t'
  | 'n' => some '\n'
  | 'f' => some '\x0c'
  | 'r' => some '\r'
  | '"' => some '"'
  | '\\' => some '\\'
  | _ => none

/-- Reads a code point of exactly that many hexadecimal digits. -/
def readHex : (count : Nat) → (value : Nat) → Chars → Option (Nat × Chars)
  | 0, value, s => some (value, s)
  | count + 1, value, c :: s => do
    let d ← Text.hexDigit? c
    readHex count (value * 16 + d) s
  | _ + 1, _, [] => none

/-- Reads an escaped code point, which must be that of a character. -/
def readCodePoint (count : Nat) (s : Chars) : Option (Char × Chars) := do
  let (n, s) ← readHex count 0 s
  guard n.isValidChar
  some (Char.ofNat n, s)

/-- Reads the escape after a backslash. -/
def readEscape : Chars → Option (Char × Chars)
  | 'u' :: s => readCodePoint 4 s
  | 'U' :: s => readCodePoint 8 s
  | c :: s => (shortEscape? c).map (·, s)
  | [] => none

/-- Reads a basic string up to its closing quotation mark. -/
def readBasic : (fuel : Nat) → Chars → Option (List Char × Chars)
  | 0, _ => none
  | fuel + 1, s =>
    match s with
    | '"' :: s => some ([], s)
    | '\\' :: s => do
      let (c, s) ← readEscape s
      let (cs, s) ← readBasic fuel s
      some (c :: cs, s)
    | c :: s => do
      guard (isPlain c)
      let (cs, s) ← readBasic fuel s
      some (c :: cs, s)
    | [] => none

/-- Reads a literal string up to its closing apostrophe. -/
def readLiteral : Chars → Option (List Char × Chars)
  | '\'' :: s => some ([], s)
  | c :: s => do
    guard (isPlain c)
    let (cs, s) ← readLiteral s
    some (c :: cs, s)
  | [] => none

/-- What follows the mark that closes a string of several lines. Up to two marks of the same kind
may stand in front of it. -/
def closing? (mark : Char) (s : Chars) : Option Chars :=
  after? [mark, mark, mark, mark, mark] s <|> after? [mark, mark, mark, mark] s <|>
    after? [mark, mark, mark] s

/-- Skips a string of several lines up to its closing mark. -/
def skipLongString (mark : Char) (escapes : Bool) : (fuel : Nat) → Chars → Option Chars
  | 0, _ => none
  | fuel + 1, s =>
    match closing? mark s, s with
    | some rest, _ => some rest
    | none, '\n' :: s => skipLongString mark escapes fuel s
    | none, '\r' :: '\n' :: s => skipLongString mark escapes fuel s
    | none, c :: s =>
      if escapes && c = '\\' then
        match newline? (skipBlanks s) with
        | some s => skipLongString mark escapes fuel s
        | none => do
          let (_, s) ← readEscape s
          skipLongString mark escapes fuel s
      else if isPlain c then skipLongString mark escapes fuel s
      else none
    | none, [] => none

/-- Skips a string of any kind. -/
def skipString (s : Chars) : Option Chars :=
  match s with
  | '"' :: '"' :: '"' :: s => skipLongString '"' true (s.length + 1) s
  | '"' :: s => (readBasic (s.length + 1) s).map (·.2)
  | '\'' :: '\'' :: '\'' :: s => skipLongString '\'' false (s.length + 1) s
  | '\'' :: s => (readLiteral s).map (·.2)
  | _ => none

end Intercept.Toml
