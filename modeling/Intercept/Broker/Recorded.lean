import Intercept.Broker.Basic
import Intercept.Broker.Event

/-!
A broker whose consumers do nothing but note what they are told, each under its own name.
-/

namespace Intercept

/-- A call to the broker. -/
inductive BrokerCall where
  | start (consumer : String) (priority : Int) (name : String)
  | publish (body : Body)
  | publishAll (bodies : List Body)
  /-- Publishes a value, which has an encoded form unless its serialization fails. -/
  | publishValue (encoded : Option Body)
  | ack (tag : Nat)
  | nack (tag : Nat) (multiple : Bool)
  | cancel (consumer : String)
  | hold
  | release
  | failConnection (reason : String)
  | consumeBacklog (count : Nat)
  | dispose
  deriving Repr

/-- A broker with the notes of its consumers, in the order in which they were told. -/
structure RecordedBroker where
  broker : Broker String := {}
  events : List (String × ConsumerEvent) := []
  deriving Inhabited

namespace RecordedBroker

/-- A consumer notes what it is told. -/
def note (r : RecordedBroker) (name : String) (event : ConsumerEvent) : RecordedBroker :=
  { r with events := r.events ++ [(name, event)] }

def publish (r : RecordedBroker) (body : Body) : RecordedBroker × Option Nat :=
  match r.broker.publish body with
  | (b, none) => ({ r with broker := b }, none)
  | (b, some (tag, name)) => ({ r with broker := b }.note name (.received tag body), some tag)

/-- Publishes several messages in a row. -/
def publishAll (r : RecordedBroker) : List Body → RecordedBroker × List (Option Nat)
  | [] => (r, [])
  | body :: rest =>
    let (r, tag) := r.publish body
    let (r, tags) := r.publishAll rest
    (r, tag :: tags)

/-- Tells a consumer that its cancel is confirmed. -/
def confirm (r : RecordedBroker) (c : Consumer String) : RecordedBroker :=
  let r := r.note c.sink .cancelled
  { r with broker := r.broker.confirmCancel c.tag }

def apply (r : RecordedBroker) : BrokerCall → RecordedBroker × BrokerReply
  | .start consumer priority name =>
    let (b, result) := r.broker.start consumer priority name
    ({ r with broker := b }, .result result)
  | .publish body => let (r, tag) := r.publish body; (r, .tag tag)
  | .publishAll bodies => let (r, tags) := r.publishAll bodies; (r, .tags tags)
  | .publishValue none => (r, .tag none)
  | .publishValue (some body) => let (r, tag) := r.publish body; (r, .tag tag)
  | .ack tag => let (b, result) := r.broker.ack tag; ({ r with broker := b }, .result result)
  | .nack tag multiple =>
    let (b, result) := r.broker.nack tag multiple
    ({ r with broker := b }, .result result)
  | .cancel consumer =>
    match r.broker.cancel consumer with
    | (b, .error e) => ({ r with broker := b }, .result (.error e))
    | (b, .ok none) => ({ r with broker := b }, .result (.ok ()))
    | (b, .ok (some c)) => ({ r with broker := b }.confirm c, .result (.ok ()))
  | .hold => ({ r with broker := r.broker.hold }, .done)
  | .release =>
    let (b, held) := r.broker.release
    (held.foldl confirm { r with broker := b }, .done)
  | .failConnection reason =>
    (r.broker.consumers.foldl (fun r c => r.note c.sink (.failed (.connection reason))) r, .done)
  | .consumeBacklog count =>
    let (b, taken) := r.broker.consumeBacklog count
    ({ r with broker := b }, .taken taken)
  | .dispose => ({ r with broker := r.broker.dispose }, .done)

/-- Whether a wait for that many confirmed cancels is over. -/
def reached (r : RecordedBroker) (count : Nat) : Bool := count ≤ r.broker.confirmed

end RecordedBroker
end Intercept
