import Intercept.Broker.Error
import Intercept.Broker.Operation
import Intercept.Text.Utf8

/-!
A strict broker of one queue on one channel, held in memory. Delivery tags ascend for the lifetime
of the broker, each message goes to the attached consumer of the highest priority, and what is
published while nobody is attached goes to the backlog of the backup consumers. To settle a tag that
is not unsettled is a violation.

Calling back the consumers is left to the caller: each operation says which callbacks are due.
-/

namespace Intercept

/-- An attached consumer; `sink` is where its deliveries go. -/
structure Consumer (κ : Type) where
  tag : String
  priority : Int
  sink : κ
  deriving Repr

structure Broker (κ : Type) where
  /-- The delivery tag given out last. -/
  lastTag : Nat := 0
  /-- The attached consumers in the order in which they subscribed. -/
  consumers : List (Consumer κ) := []
  /-- The delivered bodies that are not settled, by ascending tag. -/
  unsettled : List (Nat × Body) := []
  /-- The acknowledged tags in the order of settlement. -/
  acked : List Nat := []
  /-- The rejected tags in the order of settlement. -/
  nacked : List Nat := []
  /-- What the backup consumers hold, rejected messages included. -/
  backlog : List Body := []
  operations : List Operation := []
  violations : List Violation := []
  /-- Cancel confirmations are held back. -/
  holding : Bool := false
  /-- The cancelled consumers whose confirmation is held back. -/
  held : List (Consumer κ) := []
  /-- The number of cancels confirmed so far. -/
  confirmed : Nat := 0
  disposed : Bool := false
  deriving Inhabited

namespace Broker
variable {κ : Type}

/-- The consumer of the highest priority; of equal ones the one that subscribed first. -/
def preferred : List (Consumer κ) → Option (Consumer κ)
  | [] => none
  | c :: rest =>
    match preferred rest with
    | none => some c
    | some d => if d.priority ≤ c.priority then some c else some d

/-- Publishes a message. It is delivered under the next tag if a consumer is attached. -/
def publish (b : Broker κ) (body : Body) : Broker κ × Option (Nat × κ) :=
  match preferred b.consumers with
  | none => ({ b with backlog := b.backlog ++ [body] }, none)
  | some c =>
    let tag := b.lastTag + 1
    ({ b with lastTag := tag, unsettled := b.unsettled ++ [(tag, body)] }, some (tag, c.sink))

def record (b : Broker κ) (op : Operation) : Broker κ :=
  { b with operations := b.operations ++ [op] }

/-- Records a violation, which fails the call. -/
def violate (b : Broker κ) (v : Violation) : Broker κ × Except BrokerError α :=
  ({ b with violations := b.violations ++ [v] }, .error (.protocol v.text))

/-- Runs an operation on a channel that is open, and records it first. -/
def onOpen (b : Broker κ) (op : Operation) (run : Broker κ → Broker κ × Except BrokerError α) :
    Broker κ × Except BrokerError α :=
  if b.disposed then (b, .error .closed) else run (b.record op)

/-- Attaches a consumer. -/
def start (b : Broker κ) (tag : String) (priority : Int) (sink : κ) :
    Broker κ × Except BrokerError Unit :=
  b.onOpen (.start tag priority) fun b =>
    ({ b with consumers := b.consumers ++ [⟨tag, priority, sink⟩] }, .ok ())

def isUnsettled (b : Broker κ) (tag : Nat) : Bool := b.unsettled.any (·.1 == tag)

/-- Acknowledges one delivery. -/
def ack (b : Broker κ) (tag : Nat) : Broker κ × Except BrokerError Unit :=
  b.onOpen (.ack tag) fun b =>
    if b.isUnsettled tag then
      ({ b with
        unsettled := b.unsettled.filter (·.1 != tag)
        acked := b.acked ++ [tag] }, .ok ())
    else b.violate (.unknownAck tag)

/-- Whether a reject of `tag` covers another one. -/
def covers (tag : Nat) (multiple : Bool) (other : Nat) : Bool :=
  if multiple then other ≤ tag else other == tag

theorem le_of_covers {tag other : Nat} {multiple : Bool} (h : covers tag multiple other = true) :
    other ≤ tag := by
  cases multiple with
  | false => exact Nat.le_of_eq (eq_of_beq h)
  | true => exact of_decide_eq_true h

/-- Rejects one delivery, or every unsettled one up to it; the bodies go to the backlog. -/
def nack (b : Broker κ) (tag : Nat) (multiple : Bool) : Broker κ × Except BrokerError Unit :=
  b.onOpen (.nack tag multiple) fun b =>
    if b.isUnsettled tag then
      let (rejected, kept) := b.unsettled.partition fun d => covers tag multiple d.1
      ({ b with
        unsettled := kept
        nacked := b.nacked ++ rejected.map (·.1)
        backlog := b.backlog ++ rejected.map (·.2) }, .ok ())
    else b.violate (.unknownNack tag multiple)

/-- Detaches the earliest consumer with that tag. The consumer is returned if its cancel is to be
confirmed now; otherwise the confirmation is held back. -/
def cancel (b : Broker κ) (tag : String) : Broker κ × Except BrokerError (Option (Consumer κ)) :=
  b.onOpen (.cancel tag) fun b =>
    match b.consumers.find? (·.tag == tag) with
    | none => b.violate (.unknownConsumer tag)
    | some c =>
      let b := { b with consumers := b.consumers.eraseP (·.tag == tag) }
      if b.holding then ({ b with held := b.held ++ [c] }, .ok none) else (b, .ok (some c))

/-- Records that a consumer has dealt with the confirmation of its cancel. -/
def confirmCancel (b : Broker κ) (tag : String) : Broker κ :=
  { b.record (.cancelConfirmed tag) with confirmed := b.confirmed + 1 }

/-- Holds back the cancel confirmations from now on. -/
def hold (b : Broker κ) : Broker κ := { b with holding := true }

/-- Holds back no longer; the consumers returned are to be confirmed, in this order. -/
def release (b : Broker κ) : Broker κ × List (Consumer κ) :=
  ({ b with holding := false, held := [] }, b.held)

/-- Lets the backup consumers take up to `count` messages. -/
def consumeBacklog (b : Broker κ) (count : Nat) : Broker κ × Nat :=
  ({ b with backlog := b.backlog.drop count }, min count b.backlog.length)

/-- Releases the channel; a second time does nothing. -/
def dispose (b : Broker κ) : Broker κ :=
  if b.disposed then b
  else { b.record .dispose with disposed := true, consumers := [], held := [] }

end Broker
end Intercept
