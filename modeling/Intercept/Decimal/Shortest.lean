/-!
The shortest decimal that reads back as a given binary floating-point number: of the numbers with
the fewest digits that round to it, the nearest one, and of two equally near the even one.
-/

namespace Intercept

/-- A finite number other than zero, `significand * 2 ^ exponent`, with the sign left out. -/
structure Binary where
  significand : Nat
  exponent : Int
  /-- Whether the next smaller number is only half as far away as the next greater one. -/
  narrow : Bool

/-- The number with the given bits, if it is finite and not zero. -/
def Binary.ofBits? (bits : UInt64) : Option Binary :=
  let fraction : Nat := bits.toNat % (1 <<< 52)
  let exponent : Nat := bits.toNat / (1 <<< 52) % (1 <<< 11)
  if exponent = 2047 then none
  else if exponent = 0 then
    if fraction = 0 then none else some ⟨fraction, -1074, false⟩
  else some ⟨(1 <<< 52) + fraction, (exponent : Int) - 1075, fraction = 0 && exponent > 1⟩

/-- A decimal number, `digits * 10 ^ exponent`. -/
structure Decimal where
  digits : Nat
  exponent : Int
  deriving DecidableEq, Repr

/-- Compares `d * 10 ^ k` with `x * 2 ^ q`. -/
def compareScaled (d : Nat) (k : Int) (x : Nat) (q : Int) : Ordering :=
  compare ((d * Nat.pow 10 k.toNat) <<< (-q).toNat) ((x <<< q.toNat) * Nat.pow 10 (-k).toNat)

/-- The greatest `d` with `d * 10 ^ k` at most `x * 2 ^ q`. -/
def floorScaled (k : Int) (x : Nat) (q : Int) : Nat :=
  (x <<< q.toNat) * Nat.pow 10 (-k).toNat / (Nat.pow 10 k.toNat <<< (-q).toNat)

/-- Whether `d * 10 ^ k` rounds to `b`: it lies between the points halfway to the neighbours, which
themselves round to the even significand. -/
def Binary.roundsFrom (b : Binary) (d : Nat) (k : Int) : Bool :=
  let q := b.exponent - 2
  let low := compareScaled d k (4 * b.significand - if b.narrow then 1 else 2) q
  let high := compareScaled d k (4 * b.significand + 2) q
  (low == .gt && high == .lt) || (b.significand % 2 == 0 && (low == .eq || high == .eq))

/-- The power of ten of the first digit of `b`. -/
def Binary.magnitude (b : Binary) : Int :=
  ((Nat.toDigits 10 (floorScaled (-400) b.significand b.exponent)).length : Int) - 401

/-- The number nearest to `b` among the multiples of `10 ^ k` that round to `b`. -/
def Binary.onGrid (b : Binary) (k : Int) : Option Nat :=
  let d := floorScaled k b.significand b.exponent
  match b.roundsFrom d k, b.roundsFrom (d + 1) k with
  | false, false => none
  | true, false => some d
  | false, true => some (d + 1)
  | true, true =>
    match compareScaled (2 * d + 1) k (2 * b.significand) b.exponent with
    | .gt => some d
    | .lt => some (d + 1)
    | .eq => some (if d % 2 = 0 then d else d + 1)

/-- The first hit on the grids of `n`, `n + 1`, … digits; seventeen digits always suffice. -/
def Binary.searchFrom (b : Binary) (n : Nat) : (tries : Nat) → Decimal
  | 0 => ⟨floorScaled 0 b.significand b.exponent, 0⟩
  | tries + 1 =>
    let k := b.magnitude - (n : Int) + 1
    match b.onGrid k with
    | some d => ⟨d, k⟩
    | none => b.searchFrom (n + 1) tries

/-- The same number without zeros at the end of its digits. -/
def Decimal.trim (d : Decimal) : (tries : Nat) → Decimal
  | 0 => d
  | tries + 1 =>
    if d.digits % 10 = 0 then Decimal.trim ⟨d.digits / 10, d.exponent + 1⟩ tries else d

def Binary.shortest (b : Binary) : Decimal := (b.searchFrom 1 17).trim 17

end Intercept
