import Intercept.Duration

/-!
The settings of a harness.
-/

namespace Intercept

structure Settings where
  /-- How long an awaited match and an unmatched message may take, in milliseconds. -/
  timeoutMs : UInt64 := 5000
  /-- The priority of the consumers; the broker prefers the highest. -/
  priority : Int32 := 10
  /-- How many unsettled deliveries the broker allows, which also bounds the callbacks that run at
  the same time. -/
  prefetchCount : UInt16 := 10000
  deriving DecidableEq, Repr

namespace Settings

def timeout (s : Settings) : Duration := .ofMillis s.timeoutMs.toNat

/-- How many callbacks may run at the same time. -/
def permits (s : Settings) : Nat := max 1 s.prefetchCount.toNat

/-- Sets the timeout, as far as whole milliseconds can express it. -/
def withTimeout (s : Settings) (timeout : Duration) : Settings :=
  { s with timeoutMs := .ofNat (min timeout.millis (UInt64.size - 1)) }

end Settings
end Intercept
