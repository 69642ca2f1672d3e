import Intercept.Json.Value

/-!
Numerals. A numeral is read as a significand of at most 64 bits and a power of ten: the digits that
no longer fit are dropped, and the double is formed by one multiplication or division.
-/

namespace Intercept.Json

/-- A text in which the parts that are not UTF-8 are marked. -/
abbrev Symbols := List (Option Char)

/-- The digits at the begin of a text, and what follows them. -/
def spanDigits : Symbols → List Nat × Symbols
  | some c :: rest =>
    if c.isDigit then
      let (ds, rest) := spanDigits rest
      ((c.toNat - '0'.toNat) :: ds, rest)
    else ([], some c :: rest)
  | s => ([], s)

/-- The parts of a numeral. -/
structure Numeral where
  negative : Bool
  whole : List Nat
  /-- The digits after the point, if there is one. -/
  fraction : Option (List Nat)
  /-- The sign of the exponent and its digits, if there is one. -/
  exponent : Option (Bool × List Nat)

/-- Reads the digits after a point, of which there must be one at least. -/
def readFraction : Symbols → Option (Option (List Nat) × Symbols)
  | some '.' :: rest =>
    match spanDigits rest with
    | ([], _) => none
    | (ds, rest) => some (some ds, rest)
  | s => some (none, s)

/-- Whether an exponent is negative, and what follows its sign. -/
def readExponentSign : Symbols → Bool × Symbols
  | some '+' :: rest => (false, rest)
  | some '-' :: rest => (true, rest)
  | s => (false, s)

/-- Reads an exponent, which must have one digit at least. -/
def readExponent : Symbols → Option (Option (Bool × List Nat) × Symbols)
  | some c :: rest =>
    if c = 'e' || c = 'E' then
      let (negative, rest) := readExponentSign rest
      match spanDigits rest with
      | ([], _) => none
      | (ds, rest) => some (some (negative, ds), rest)
    else some (none, some c :: rest)
  | s => some (none, s)

/-- Reads a numeral after its sign: digits without a zero in front of others, then a fraction and
an exponent, which may both be missing. -/
def readUnsigned (negative : Bool) (s : Symbols) : Option (Numeral × Symbols) := do
  let (whole, s) := spanDigits s
  guard (whole != [] && (whole.head? != some 0 || whole.length == 1))
  let (fraction, s) ← readFraction s
  let (exponent, s) ← readExponent s
  some (⟨negative, whole, fraction, exponent⟩, s)

def readNumeral : Symbols → Option (Numeral × Symbols)
  | some '-' :: rest => readUnsigned true rest
  | s => readUnsigned false s

/-- The greatest significand. -/
def significandMax : Nat := UInt64.size - 1

/-- Appends digits to a significand as long as it fits, and counts those that do not. -/
def appendDigits (significand : Nat) : List Nat → Nat × Nat
  | [] => (significand, 0)
  | d :: ds =>
    if significand * 10 + d ≤ significandMax then appendDigits (significand * 10 + d) ds
    else (significand, ds.length + 1)

/-- Scales a double by a power of ten. Within the range of powers of ten that are doubles this is
one multiplication or division; below it the number is divided step by step until it is in range or
zero. A result that is not finite is refused. -/
def scale (x : Float) : (steps : Nat) → (exponent : Int) → Option Float
  | 0, _ => none
  | steps + 1, exponent =>
    if 0 ≤ exponent then
      if exponent ≤ 308 then
        let y := x * Float.ofScientific 1 false exponent.toNat
        if y.isInf then none else some y
      else if x == 0 then some x else none
    else if -308 ≤ exponent then some (x / Float.ofScientific 1 false (-exponent).toNat)
    else if x == 0 then some x
    else scale (x / Float.ofScientific 1 false 308) steps (exponent + 308)

/-- An exponent of 32 bits; `none` if its digits do not fit. -/
def exponentValue? (ds : List Nat) : Option Nat :=
  ds.foldlM (fun (n d : Nat) =>
    if n * 10 + d ≤ Int32.maxValue.toInt then some (n * 10 + d) else none) 0

/-- Keeps an exponent within 32 bits. -/
def clampExponent (e : Int) : Int := max Int32.minValue.toInt (min Int32.maxValue.toInt e)

/-- The double with the given significand and sign, scaled by a power of ten and by the exponent
that was written. An exponent that is too long to read leaves zero, or nothing if it is positive. -/
def double (negative : Bool) (significand : Nat) (power : Int) (exponent : Option (Bool × List Nat)) :
    Option Float :=
  let signed (x : Float) : Float := if negative then -x else x
  let scaled (e : Int) : Option Float :=
    (scale significand.toUInt64.toFloat (e.natAbs / 308 + 1) e).map signed
  match exponent with
  | none => scaled power
  | some (below, ds) =>
    match exponentValue? ds with
    | some e => scaled (clampExponent (if below then power - e else power + e))
    | none => if significand != 0 && !below then none else some (signed 0)

/-- The number that a numeral stands for. An integer literal of 64 bits is an integer, except for
`-0`; a double out of range is refused. -/
def Numeral.value? (n : Numeral) : Option Number :=
  let (significand, dropped) := appendDigits 0 n.whole
  match n.fraction, n.exponent, dropped with
  | none, none, 0 =>
    if !n.negative then some (.int significand)
    else if significand = 0 || -significand < Int64.minValue.toInt then
      some (.double (-significand.toUInt64.toFloat))
    else some (.int (-significand))
  | fraction, exponent, _ =>
    let digits := fraction.getD []
    let (significand, unread) := appendDigits significand digits
    (double n.negative significand ((dropped : Int) - (digits.length - unread : Nat)) exponent).map
      .double

end Intercept.Json
