import Intercept.Broker.Error
import Intercept.Report

/-!
The errors that callers of the harness see.
-/

namespace Intercept

/-- An error raised by a caller's own code, with what caused it, outermost first. -/
structure Failure where
  outer : String
  causes : List String := []
  deriving DecidableEq, Repr

/-- The error and its causes on one line. -/
def Failure.chain (f : Failure) : String := ": ".intercalate (f.outer :: f.causes)

inductive HarnessError where
  /-- No matching message came before the deadline. -/
  | timeout (report : TimeoutReport)
  /-- No matching message came before the deadline, and the predicate raised at least once. -/
  | predicate (report : TimeoutReport)
  /-- The callback failed for a matched message. -/
  | processing (tag : Nat) (failure : Failure)
  /-- The broker reported a failure. -/
  | transport (error : BrokerError)
  | disposed
  /-- The wait ended before it had a result. -/
  | cancelled
  /-- A consumer could not start, stop or complete. -/
  | generation (reason : String)
  /-- The queue still held messages when the deadline passed. -/
  | queueNotDrained (queue span : String)
  deriving DecidableEq, Repr

namespace HarnessError

def message : HarnessError → String
  | .timeout report => "timed out waiting for message\n" ++ report.text
  | .predicate report => "predicate failed while waiting for message\n" ++ report.text
  | .processing tag failure => s!"processing delivery {tag} failed: " ++ failure.outer
  | .transport error => "transport failure: " ++ error.message
  | .disposed => "message harness has been disposed"
  | .cancelled => "wait for message was cancelled"
  | .generation reason => "consumer generation failure: " ++ reason
  | .queueNotDrained queue span => "queue `" ++ queue ++ "` not drained after " ++ span

/-- What the waiter had seen, for a wait that ended without a match. -/
def report? : HarnessError → Option TimeoutReport
  | .timeout report => some report
  | .predicate report => some report
  | _ => none

/-- Whether the harness that reported the error is of no use afterwards. -/
def isTerminal : HarnessError → Bool
  | .transport _ | .disposed | .generation _ => true
  | _ => false

end HarnessError
end Intercept
