import Intercept.Broker.Error
import Intercept.Error
import Intercept.Message
import Intercept.Settings.Basic

/-!
What a harness is set up with: the messages it waits for, the callback it runs for each match, and
the connection that its calls take to the broker.
-/

namespace Intercept

/-- A step of a callback. -/
inductive Action where
  | sleep (ms : Nat)
  /-- Waits until the gate is open; an open gate stays open. -/
  | pass (gate : String)
  /-- Ends the callback with an error. -/
  | fail (failure : Failure)
  /-- Ends the callback with a panic, which may come without a text. -/
  | panic (reason : Option String)
  deriving DecidableEq, Repr

/-- The error that stands for a panic of a callback. -/
def panicFailure (reason : Option String) : Failure where
  outer := "processing callback panicked: task N panicked" ++
    match reason with
    | none => ""
    | some text => " with message " ++ Text.quote text

/-- What is done for the claims on a message, by their numbers: a callback with these actions, or
nothing if the function that is to hand over the callback panics. -/
def Handling := Nat → Option (List Action)

/-- The same callback for every claim. -/
instance : Coe (List Action) Handling where
  coe actions := fun _ => some actions

/-- What becomes of a request for a subscription. -/
inductive StartBehaviour where
  | prompt
  /-- The broker does not see the request. -/
  | refused (error : BrokerError)
  /-- The answer comes that many milliseconds later; if it is an error, the broker has not seen the
  request. -/
  | delayed (ms : Nat) (error : Option BrokerError := none)
  deriving Repr

/-- The connection to the broker. A call that it fails is not seen by the broker. Requests for
subscriptions and cancels are numbered from zero; acks and rejects go by their tag. -/
structure Connection where
  start : Nat → StartBehaviour := fun _ => .prompt
  cancel : Nat → Option BrokerError := fun _ => none
  ack : Nat → Option BrokerError := fun _ => none
  nack : Nat → Option BrokerError := fun _ => none

structure Setup (M : Type) where
  format : MessageFormat M
  settings : Settings := {}
  /-- The label of the harness in reports. -/
  context : String := ""
  /-- What is done for a matched message. -/
  callback : M → Handling := fun _ _ => some []
  connection : Connection := {}
  /-- The consumer tag of each subscription, numbered from zero. -/
  consumerTag : Nat → String
  /-- Somebody besides the broker holds on to the event handlers of the consumers. -/
  keepsHandlers : Bool := false

namespace Setup
variable {M : Type}

/-- The time after which a wait gives up, in ticks of the clock. -/
def timeout (cfg : Setup M) : Nat := cfg.settings.timeout.ticks

/-- The time after which a wait gives up, in words. -/
def timeoutText (cfg : Setup M) : String := cfg.settings.timeout.humanReadable

end Setup
end Intercept
