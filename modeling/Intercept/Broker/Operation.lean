/-!
The record of what was asked of a broker.
-/

namespace Intercept

/-- An operation on a channel, as it was asked for. -/
inductive Operation where
  | start (consumer : String) (priority : Int)
  | ack (tag : Nat)
  | nack (tag : Nat) (multiple : Bool)
  | cancel (consumer : String)
  /-- A cancel was confirmed; recorded once the consumer has dealt with the confirmation. -/
  | cancelConfirmed (consumer : String)
  | dispose
  deriving DecidableEq, Repr

/-- The short text of an operation. -/
def Operation.text : Operation → String
  | .start consumer priority => s!"start {consumer} priority {priority}"
  | .ack tag => s!"ack {tag}"
  | .nack tag multiple => s!"nack {tag}" ++ if multiple then " multiple" else ""
  | .cancel consumer => "cancel " ++ consumer
  | .cancelConfirmed consumer => "cancel-ok " ++ consumer
  | .dispose => "dispose"

/-- The name of the protocol method behind an operation, with its arguments. -/
def Operation.methodText : Operation → String
  | .start consumer priority => s!"basic.consume {consumer} (priority {priority})"
  | .ack tag => s!"basic.ack {tag}"
  | .nack tag multiple => s!"basic.nack {tag}" ++ if multiple then " (multiple)" else ""
  | .cancel consumer => "basic.cancel " ++ consumer
  | .cancelConfirmed consumer => "basic.cancel-ok " ++ consumer
  | .dispose => "channel.close"

/-- A call that broke the rules of the channel. -/
inductive Violation where
  | unknownAck (tag : Nat)
  | unknownNack (tag : Nat) (multiple : Bool)
  | unknownConsumer (consumer : String)
  deriving DecidableEq, Repr

def Violation.text : Violation → String
  | .unknownAck tag => s!"ack of unsettled-unknown tag {tag}"
  | .unknownNack tag multiple =>
    s!"nack of unsettled-unknown tag {tag} (multiple: " ++ (if multiple then "true" else "false") ++ ")"
  | .unknownConsumer consumer => "cancel of unknown consumer " ++ consumer

end Intercept
