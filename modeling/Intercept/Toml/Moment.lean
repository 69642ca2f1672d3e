import Intercept.Toml.Number

/-!
The dates and times of TOML, which must be those of a calendar and a clock.
-/

namespace Intercept.Toml

/-- Reads a number of exactly that many digits. -/
def readFixed : (count : Nat) → (value : Nat) → Chars → Option (Nat × Chars)
  | 0, value, s => some (value, s)
  | count + 1, value, c :: s => do
    let d ← digit? 10 c
    readFixed count (value * 10 + d) s
  | _ + 1, _, [] => none

def isLeapYear (year : Nat) : Bool := year % 4 = 0 && (year % 100 ≠ 0 || year % 400 = 0)

def daysInMonth (year month : Nat) : Nat :=
  if month = 2 then if isLeapYear year then 29 else 28
  else if [4, 6, 9, 11].contains month then 30
  else 31

/-- Reads a number of two digits within bounds. -/
def readPart (low high : Nat) (s : Chars) : Option (Nat × Chars) := do
  let (n, s) ← readFixed 2 0 s
  guard (low ≤ n && n ≤ high)
  some (n, s)

def skipDate (s : Chars) : Option Chars := do
  let (year, s) ← readFixed 4 0 s
  let s ← after? ['-'] s
  let (month, s) ← readPart 1 12 s
  let s ← after? ['-'] s
  let (_, s) ← readPart 1 (daysInMonth year month) s
  some s

/-- Skips the fraction of a second, if there is one. -/
def skipSecondFraction : Chars → Chars
  | '.' :: c :: s => if c.isDigit then s.dropWhile (·.isDigit) else '.' :: c :: s
  | s => s

/-- Skips a time of day, down to the seconds; a leap second is allowed. -/
def skipTime (s : Chars) : Option Chars := do
  let (_, s) ← readPart 0 23 s
  let s ← after? [':'] s
  let (_, s) ← readPart 0 59 s
  let s ← after? [':'] s
  let (_, s) ← readPart 0 60 s
  some (skipSecondFraction s)

/-- Skips an offset from universal time. -/
def skipOffset : Chars → Option Chars
  | 'Z' :: s | 'z' :: s => some s
  | '+' :: s | '-' :: s => do
    let (_, s) ← readPart 0 23 s
    let s ← after? [':'] s
    let (_, s) ← readPart 0 59 s
    some s
  | _ => none

/-- Skips the time behind a date and its offset, as far as they are there. -/
def skipTimeOfDate (s : Chars) : Chars :=
  match s with
  | c :: rest =>
    if c = 'T' || c = 't' || c = ' ' then
      match skipTime rest with
      | some rest => (skipOffset rest).getD rest
      | none => s
    else s
  | [] => []

/-- Skips a date, a time, or both. -/
def skipMoment (s : Chars) : Option Chars :=
  (skipDate s).map skipTimeOfDate <|> skipTime s

end Intercept.Toml
