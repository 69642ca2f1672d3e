import Intercept.Broker.Event
import Intercept.Harness.Completion
import Intercept.Harness.Consumer

/-!
What others do to a harness and its broker: callers come, await and give up, messages are published,
the broker confirms cancels or fails, and the owner lets go.
-/

namespace Intercept

inductive Act (M : Type) where
  /-- A caller asks to wait for a message. -/
  | call (description : String) (predicate : M → Verdict)
  /-- A caller awaits the outcome of its wait. -/
  | await (wait : Nat)
  /-- A caller lets go of its wait. -/
  | giveUp (wait : Nat)
  | publish (body : Body)
  | publishAll (bodies : List Body)
  | openGate (gate : String)
  /-- The broker holds back the confirmation of cancels. -/
  | hold
  /-- The broker confirms the cancels it held back. -/
  | release
  | failConnection (reason : String)
  | consumeBacklog (count : Nat)
  /-- Somebody else acknowledges a delivery. -/
  | ack (tag : Nat)
  /-- Somebody else rejects a delivery. -/
  | nack (tag : Nat) (multiple : Bool)
  /-- Somebody else releases the broker. -/
  | disposeBroker
  /-- Somebody else calls the event handlers of a consumer; consumers are numbered from one. -/
  | notify (consumer : Nat) (event : ConsumerEvent)
  | dispose
  /-- The owner drops the harness. -/
  | drop

namespace Harness
variable {M : Type} (cfg : Setup M) (h : Harness M)

/-- The consumer of a generation receives a delivery. -/
def receive (g : Nat) (d : Delivery) : Harness M :=
  { h with ledger := h.ledger.observe d.tag }.changeGeneration g fun x =>
    { x with inbound := x.inbound ++ [d] }

/-- The consumer of a generation is told something. -/
def handle (g : Nat) : ConsumerEvent → Harness M
  | .received tag body => h.receive g ⟨tag, body⟩
  | .cancelled => h.teardown cfg g
  | .failed e => h.fail (.transport e)

def publish (body : Body) : Harness M × Option Nat :=
  match h.broker.publish body with
  | (broker, none) => ({ h with broker }, none)
  | (broker, some (tag, g)) => ({ h with broker }.receive g ⟨tag, body⟩, some tag)

/-- Publishes several messages in a row. -/
def publishAll (h : Harness M) : List Body → Harness M × List (Option Nat)
  | [] => (h, [])
  | body :: rest =>
    let (h, tag) := h.publish body
    let (h, tags) := h.publishAll rest
    (h, tag :: tags)

/-- A caller lets go of its wait, if it has one. -/
def giveUp (i : Nat) : Option (Harness M) := do
  let w ← h.waits[i]?
  match w.stage with
  | .calling => some (h.enterWait i .dropped).disposeIfUnowned
  | .starting _ => some ((h.deregister i).enterWait i .dropped).disposeIfUnowned
  | .registered | .awaited | .awaiting _ | .overdue => some ((h.deregister i).enterWait i .dropped)
  | .ended _ => some h
  | .refused _ | .dropped => none

/-- A caller begins to await the outcome of its wait, if it is registered. -/
def await (i : Nat) : Option (Harness M) := do
  let w ← h.waits[i]?
  match w.stage with
  | .registered => some (h.enterWait i .awaited)
  | _ => none

/-- What an act does, and the answer to it; there is none if it is not possible. -/
def act? : Act M → Option (Harness M × BrokerReply)
  | .call description predicate =>
    if h.dropped then none
    else some ({ h with waits := h.waits ++ [{ description, predicate }] }, .done)
  | .await i => (h.await i).map (·, .done)
  | .giveUp i => (h.giveUp i).map (·, .done)
  | .publish body => let (h, tag) := h.publish body; some (h, .tag tag)
  | .publishAll bodies => let (h, tags) := h.publishAll bodies; some (h, .tags tags)
  | .openGate gate => some ({ h with openGates := gate :: h.openGates }, .done)
  | .hold => some ({ h with broker := h.broker.hold }, .done)
  | .release =>
    let (broker, held) := h.broker.release
    some (held.foldl (·.confirm cfg ·) { h with broker }, .done)
  | .failConnection reason =>
    some (h.broker.consumers.foldl (fun h _ => h.fail (.transport (.connection reason))) h, .done)
  | .consumeBacklog count =>
    let (broker, taken) := h.broker.consumeBacklog count
    some ({ h with broker }, .taken taken)
  | .ack tag => let (broker, r) := h.broker.ack tag; some ({ h with broker }, .result r)
  | .nack tag multiple =>
    let (broker, r) := h.broker.nack tag multiple
    some ({ h with broker }, .result r)
  | .disposeBroker => some ({ h with broker := h.broker.dispose }, .done)
  | .notify consumer event => do
    guard (0 < consumer)
    let g ← h.subscriptions[consumer - 1]?
    guard (h.handles cfg g)
    some (h.handle cfg g event, .done)
  | .dispose => if h.dropped then none else some (h.dispose, .done)
  | .drop => some ({ h with dropped := true }.disposeIfUnowned, .done)

end Harness
end Intercept
