/-!
Spans of time and their text.
-/

namespace Intercept

/-- A span of time with the resolution of a nanosecond. -/
structure Duration where
  nanos : Nat
  deriving DecidableEq, Inhabited, Repr

namespace Duration

def ofMillis (ms : Nat) : Duration := ⟨ms * 1000000⟩

def ofSeconds (seconds nanos : Nat) : Duration := ⟨seconds * 1000000000 + nanos⟩

/-- The whole milliseconds of the span. -/
def millis (d : Duration) : Nat := d.nanos / 1000000

/-- The milliseconds of the span, a started one counted whole: the time a clock of that resolution
needs to see the span pass. -/
def ticks (d : Duration) : Nat := (d.nanos + 999999) / 1000000

/-- The whole seconds of the span. -/
def seconds (d : Duration) : Nat := d.nanos / 1000000000

/-- The nanoseconds beyond the last whole second. -/
def subsecNanos (d : Duration) : Nat := d.nanos % 1000000000

/-- The span in the largest unit that still tells test timeouts apart, rounded down: seconds from
ten of them on, minutes from ten of them on, hours from ten of them on. -/
def humanReadable (d : Duration) : String :=
  let ms := d.millis
  if ms = 1 then "1 millisecond"
  else if ms < 10000 then s!"{ms} milliseconds"
  else if ms / 1000 < 600 then s!"{ms / 1000} seconds"
  else if ms / 1000 / 60 < 600 then s!"{ms / 1000 / 60} minutes"
  else s!"{ms / 1000 / 60 / 60} hours"

end Duration
end Intercept
