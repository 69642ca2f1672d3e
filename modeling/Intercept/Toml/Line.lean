/-!
The lines of a TOML document: blanks, comments and line ends.
-/

namespace Intercept.Toml

/-- A text that is being read. -/
abbrev Chars := List Char

def isBlank (c : Char) : Bool := c = ' ' || c = '\t'

/-- What follows the blanks at the begin of a text. -/
def skipBlanks (s : Chars) : Chars := s.dropWhile isBlank

/-- Whether a character may stand in a comment or in a string as it is: no control character but the
tabulator. -/
def isPlain (c : Char) : Bool := c = '\t' || (0x20 ≤ c.toNat && c.toNat ≠ 0x7F)

/-- What follows the line end at the begin of a text, which must begin with one. -/
def newline? : Chars → Option Chars
  | '\n' :: s => some s
  | '\r' :: '\n' :: s => some s
  | _ => none

/-- What follows a line of which only blanks and a comment are left. -/
def endLine? (s : Chars) : Option Chars :=
  let rest := match skipBlanks s with
    | '#' :: s => s.dropWhile isPlain
    | s => s
  if rest.isEmpty then some [] else newline? rest

/-- Skips blanks, line ends and comments; a comment must end with its line. -/
def skipLines : (fuel : Nat) → Chars → Option Chars
  | 0, _ => none
  | fuel + 1, s =>
    match skipBlanks s with
    | '#' :: s => do skipLines fuel (← newline? (s.dropWhile isPlain))
    | '\n' :: s => skipLines fuel s
    | '\r' :: '\n' :: s => skipLines fuel s
    | '\r' :: _ => none
    | s => some s

/-- The text after `word`, if it begins with it. -/
def after? : (word : List Char) → Chars → Option Chars
  | [], s => some s
  | c :: cs, d :: s => if c = d then after? cs s else none
  | _ :: _, [] => none

end Intercept.Toml
