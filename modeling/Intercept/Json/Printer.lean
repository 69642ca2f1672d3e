import Intercept.Decimal.Shortest
import Intercept.Json.Value

/-!
The compact text of a JSON value.
-/

namespace Intercept.Json

/-- Escapes a character of a string: only the quotation mark, the backslash and the control
characters need it. -/
def escapeChar (c : Char) : List Char :=
  match c with
  | '"' => ['\\', '"']
  | '\\' => ['\\', '\\']
  | '\n' => ['\\', 'n']
  | '\r' => ['\\', 'r']
  | '\t' => ['\\', 't']
  | '\x08' => ['\\', 'b']
  | '\x0c' => ['\\', 'f']
  | c =>
    if c.toNat < 0x20 then
      ['\\', 'u', '0', '0', Nat.digitChar (c.toNat / 16), Nat.digitChar (c.toNat % 16)]
    else [c]

def printString (s : String) : String :=
  String.ofList ('"' :: s.toList.flatMap escapeChar ++ ['"'])

/-- How a double is written: positionally, with at least one decimal, if its first digit stands
within these places; else with one digit before the point and a signed exponent. -/
structure DoubleFormat where
  /-- The lowest power of ten of the first digit that is written positionally. -/
  lowest : Int
  /-- The highest one. -/
  highest : Int

def doubleFormat : DoubleFormat := ⟨-5, 15⟩

/-- The text of `d`, whose digits do not end in zero. -/
def DoubleFormat.print (f : DoubleFormat) (d : Decimal) : String :=
  let digits := Nat.toDigits 10 d.digits
  let first := d.exponent + digits.length - 1
  if f.lowest ≤ first && first ≤ f.highest then
    if 0 ≤ d.exponent then
      String.ofList (digits ++ List.replicate d.exponent.toNat '0' ++ ['.', '0'])
    else if 0 ≤ first then
      let whole := (first + 1).toNat
      String.ofList (digits.take whole ++ ['.'] ++ digits.drop whole)
    else
      String.ofList (['0', '.'] ++ List.replicate (-first - 1).toNat '0' ++ digits)
  else
    let mantissa := match digits with
      | [] => []
      | [c] => [c]
      | c :: rest => c :: '.' :: rest
    let sign := if first < 0 then "e-" else "e+"
    String.ofList mantissa ++ sign ++ toString first.natAbs

/-- The text of a double; those that are not finite have none of their own. -/
def printDouble (x : Float) : String :=
  let sign := if x.toBits ≥ 0x8000000000000000 then "-" else ""
  match Binary.ofBits? x.toBits with
  | some b => sign ++ doubleFormat.print b.shortest
  | none => if x.isFinite then sign ++ "0.0" else "null"

def Number.print : Number → String
  | .int n => toString n
  | .double x => printDouble x

mutual
/-- The text of a value, without blanks. -/
def print : Json → String
  | .null => "null"
  | .bool true => "true"
  | .bool false => "false"
  | .num n => n.print
  | .str s => printString s
  | .arr items => "[" ++ printItems items ++ "]"
  | .obj members => "\x7b" ++ printMembers members ++ "\x7d"

def printItems : List Json → String
  | [] => ""
  | [a] => print a
  | a :: rest => print a ++ "," ++ printItems rest

def printMembers : List (String × Json) → String
  | [] => ""
  | [(k, v)] => printString k ++ ":" ++ print v
  | (k, v) :: rest => printString k ++ ":" ++ print v ++ "," ++ printMembers rest
end

end Intercept.Json
