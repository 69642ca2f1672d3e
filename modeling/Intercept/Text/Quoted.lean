import Intercept.Text.Unprintable

/-!
Quoted texts. A quoted text stands on one line, shows every character it cannot print by its code
point, and is read back in one way only.
-/

namespace Intercept.Text

/-- The written form of one character: the five characters with an escape of their own, then the
unprintable ones as their code point in lowercase hexadecimal; any other stands for itself. -/
def escapeChar (c : Char) : List Char :=
  if c = '\x00' then ['\\', '0']
  else if c = '\t' then ['\\', 't']
  else if c = '\n' then ['\\', 'n']
  else if c = '\r' then ['\\', 'r']
  else if c = '"' || c = '\\' then ['\\', c]
  else if isUnprintable c then ['\\', 'u', '\x7b'] ++ Nat.toDigits 16 c.toNat ++ ['\x7d']
  else [c]

/-- A text between quotation marks, its characters escaped. -/
def quoteChars (s : List Char) : List Char :=
  '"' :: s.flatMap escapeChar ++ ['"']

def quote (s : String) : String := String.ofList (quoteChars s.toList)

/-- Quoted texts in brackets, separated by a comma and a space. -/
def quoteList (items : List String) : String :=
  "[" ++ ", ".intercalate (items.map quote) ++ "]"

end Intercept.Text
