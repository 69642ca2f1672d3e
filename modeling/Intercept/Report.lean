import Intercept.Duration
import Intercept.Text.Quoted

/-!
What a waiter that never matched tells its caller.
-/

namespace Intercept

/-- The greatest number of samples of one kind that a waiter keeps. -/
def sampleCap : Nat := 10

/-- Why a waiter gave up. -/
inductive TimeoutReason where
  /-- The deadline passed while the caller was awaiting, and nothing had matched. -/
  | afterAwait
  /-- A message that nobody matched stayed unsettled past the deadline, which stops the whole
  consumer. -/
  | unackedMessage
  deriving DecidableEq, Repr

def TimeoutReason.text : TimeoutReason → String
  | .afterAwait => "after await"
  | .unackedMessage => "unacked message"

/-- What a waiter had seen when it gave up. -/
structure TimeoutReport where
  /-- The caller's description of the awaited message. -/
  description : String
  /-- The label of the queue or of the test. -/
  context : String
  reason : TimeoutReason
  timeout : Duration
  /-- The number of deliveries that the waiter was offered, malformed ones included. -/
  messageCount : Nat
  /-- Bodies that were decoded and did not match. -/
  observed : List String
  /-- Bodies that could not be decoded. -/
  malformed : List String
  /-- Errors raised by the predicate. -/
  predicateFailures : List String
  /-- The prefetch count and the last delivery tag, if the prefetch window was used up. -/
  prefetch : Option (Nat × Nat) := none
  deriving DecidableEq, Repr

namespace TimeoutReport

/-- A line of samples, left out if there is none. -/
def sampleLine (label : String) (samples : List String) : List String :=
  if samples.isEmpty then [] else [s!"\t{label} = " ++ Text.quoteList samples]

/-- The line about the prefetch window, left out unless the window was used up. -/
def prefetchLine : Option (Nat × Nat) → List String
  | none => []
  | some (count, last) => [s!"\tprefetchCount = {count} (last delivery tag {last})"]

/-- The report line by line: what was expected, what came instead, and the circumstances. -/
def lines (r : TimeoutReport) : List String :=
  ["Expected:",
    "\ta message matching `" ++ r.description ++ "`",
    "Actual:",
    "\tmessages = " ++ Text.quoteList r.observed,
    "Context:"] ++
  sampleLine "malformedMessages" r.malformed ++
  sampleLine "predicateFailures" r.predicateFailures ++
  [s!"\tmessageCount = {r.messageCount}",
    "\ttimeout = \"" ++ r.timeout.humanReadable ++ "\""] ++
  prefetchLine r.prefetch ++
  ["\tcontext = \"" ++ r.context ++ "\"",
    "\ttimeoutReason = \"" ++ r.reason.text ++ "\""]

def text (r : TimeoutReport) : String := "\n".intercalate r.lines

end TimeoutReport
end Intercept
