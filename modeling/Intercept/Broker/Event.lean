import Intercept.Broker.Error
import Intercept.Text.Utf8

/-!
What a broker says: to its consumers, and to those who call it.
-/

namespace Intercept

/-- What a consumer is told. -/
inductive ConsumerEvent where
  | received (tag : Nat) (body : Body)
  | cancelled
  | failed (error : BrokerError)
  deriving DecidableEq, Repr

/-- What the consumer of that name notes. -/
def ConsumerEvent.note (event : ConsumerEvent) (name : String) : String :=
  match event with
  | .received tag body => s!"{name} received {tag} " ++ Utf8.lossy body
  | .cancelled => name ++ " cancelled"
  | .failed error => name ++ " failed " ++ error.message

/-- The answer to a call. -/
inductive BrokerReply where
  | done
  | result (r : Except BrokerError Unit)
  /-- The delivery tag, unless the message went to the backlog. -/
  | tag (t : Option Nat)
  | tags (ts : List (Option Nat))
  | taken (count : Nat)

end Intercept
