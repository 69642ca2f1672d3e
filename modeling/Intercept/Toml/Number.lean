import Intercept.Text.Hex
import Intercept.Toml.Line

/-!
The numbers of TOML. Underscores may stand between digits; an integer has 64 bits, and a float must
not be too great for a double.
-/

namespace Intercept.Toml

/-- The value of a digit of the given base. -/
def digit? (base : Nat) (c : Char) : Option Nat :=
  (Text.hexDigit? c).filter (· < base)

/-- Reads the digits that follow a digit. An underscore must have a digit behind it. -/
def readDigits (base : Nat) : Chars → Option (List Nat × Chars)
  | '_' :: c :: s => do
    let d ← digit? base c
    let (ds, s) ← readDigits base s
    some (d :: ds, s)
  | '_' :: [] => none
  | c :: s =>
    match digit? base c with
    | none => some ([], c :: s)
    | some d => do
      let (ds, s) ← readDigits base s
      some (d :: ds, s)
  | [] => some ([], [])

/-- Reads digits, of which there must be one at least. -/
def readDigits1 (base : Nat) : Chars → Option (List Nat × Chars)
  | c :: s => do
    let d ← digit? base c
    let (ds, s) ← readDigits base s
    some (d :: ds, s)
  | [] => none

/-- The number that digits stand for. -/
def ofDigits (base : Nat) (ds : List Nat) : Nat := ds.foldl (fun n d => n * base + d) 0

/-- Whether a number is negative, and what follows its sign. -/
def readSign : Chars → Bool × Chars
  | '+' :: s => (false, s)
  | '-' :: s => (true, s)
  | s => (false, s)

/-- Reads decimal digits; a zero in front is followed by no other digit. -/
def readWhole : Chars → Option (List Nat × Chars)
  | '0' :: s => some ([0], s)
  | s => readDigits1 10 s

/-- An integer of 64 bits. -/
def word? (negative : Bool) (n : Nat) : Option Int :=
  let i : Int := if negative then -n else n
  if Int64.minValue.toInt ≤ i && i ≤ Int64.maxValue.toInt then some i else none

/-- Reads an integer in the notation of the given base, which has no sign. -/
def readBased (base : Nat) (s : Chars) : Option (Int × Chars) := do
  let (ds, s) ← readDigits1 base s
  let n ← word? false (ofDigits base ds)
  some (n, s)

def readInteger : Chars → Option (Int × Chars)
  | '0' :: 'x' :: s => readBased 16 s
  | '0' :: 'o' :: s => readBased 8 s
  | '0' :: 'b' :: s => readBased 2 s
  | s => do
    let (negative, s) := readSign s
    let (ds, s) ← readWhole s
    let n ← word? negative (ofDigits 10 ds)
    some (n, s)

/-- Reads the digits behind a point, if there is one. -/
def readFraction : Chars → Option (Option (List Nat) × Chars)
  | '.' :: s => do
    let (ds, s) ← readDigits1 10 s
    some (some ds, s)
  | s => some (none, s)

/-- Reads an exponent, if there is one. -/
def readExponent : Chars → Option (Option Int × Chars)
  | c :: s =>
    if c = 'e' || c = 'E' then do
      let (negative, s) := readSign s
      let (ds, s) ← readDigits1 10 s
      some (some (if negative then -ofDigits 10 ds else ofDigits 10 ds), s)
    else some (none, c :: s)
  | [] => some (none, [])

/-- The least number that is rounded to infinity: it lies half a step above the greatest double. -/
def doubleBound : Nat := (1 <<< 1024) - (1 <<< 970)

/-- Whether the decimal with these digits and this power of ten is too great for a double. Only
where the order of magnitude does not decide, the numbers are compared. -/
def overflows (ds : List Nat) (power : Int) : Bool :=
  let ds := ds.dropWhile (· = 0)
  let magnitude := ds.length + power
  if ds.isEmpty || magnitude < 309 then false
  else if 309 < magnitude then true
  else if 0 ≤ power then doubleBound ≤ ofDigits 10 ds * Nat.pow 10 power.toNat
  else doubleBound * Nat.pow 10 (-power).toNat ≤ ofDigits 10 ds

/-- Skips infinity and what is not a number, which may have a sign. -/
def skipSpecialFloat (s : Chars) : Option Chars :=
  let s := (readSign s).2
  after? "inf".toList s <|> after? "nan".toList s

/-- Skips a float: digits, then a fraction, an exponent or both. -/
def skipDecimalFloat (s : Chars) : Option Chars := do
  let (negative, s) := readSign s
  let (whole, s) ← readWhole s
  let (fraction, s) ← readFraction s
  let (exponent, s) ← readExponent s
  guard (fraction.isSome || exponent.isSome)
  let behind := fraction.getD []
  guard (negative || !overflows (whole ++ behind) (exponent.getD 0 - behind.length))
  some s

def skipFloat (s : Chars) : Option Chars := skipDecimalFloat s <|> skipSpecialFloat s

end Intercept.Toml
