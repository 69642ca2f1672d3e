import Intercept.CommandLine.Replay
import Intercept.Proofs.Harness.Settling
import Intercept.Proofs.Waiter.Offers

/-! The states that a replay goes through: its caller waits for a line, and then for the callback. -/
namespace Intercept

/-- Whether an operation settles deliveries. -/
def Operation.isSettlement : Operation → Bool
  | .ack _ | .nack .. => true
  | _ => false

namespace Broker
variable {κ : Type} {b b' b'' : Broker κ} {t : Nat} {multiple : Bool}

/-- Cancels are confirmed at once. -/
structure Prompt (b : Broker κ) : Prop where
  holding : b.holding = false
  held : b.held = []

/-- Nothing was delivered, and no consumer came or went. -/
structure Stands (b b' : Broker κ) : Prop where
  lastTag : b'.lastTag = b.lastTag
  consumers : b'.consumers = b.consumers
  holding : b'.holding = b.holding
  held : b'.held = b.held
  confirmed : b'.confirmed = b.confirmed
  operations : b'.operations.filter (!·.isSettlement) = b.operations.filter (!·.isSettlement)

/-- Deliveries were rejected, and their messages went to the backlog. -/
structure Rejected (b b' : Broker κ) : Prop extends Stands b b' where
  acked : b'.acked = b.acked
  backlog : b'.backlog.length + b.nacked.length = b.backlog.length + b'.nacked.length

theorem Stands.prompt (h : b.Stands b') (hp : b.Prompt) : b'.Prompt :=
  ⟨h.holding.trans hp.holding, h.held.trans hp.held⟩

theorem Rejected.refl : b.Rejected b := ⟨⟨rfl, rfl, rfl, rfl, rfl, rfl⟩, rfl, rfl⟩

theorem Rejected.trans (h : b.Rejected b') (h' : b'.Rejected b'') : b.Rejected b'' where
  lastTag := h'.lastTag.trans h.lastTag
  acked := h'.acked.trans h.acked
  consumers := h'.consumers.trans h.consumers
  holding := h'.holding.trans h.holding
  held := h'.held.trans h.held
  confirmed := h'.confirmed.trans h.confirmed
  backlog := by
    have hfirst := h.backlog
    have hthen := h'.backlog
    omega
  operations := h'.operations.trans h.operations

theorem stands_ack (hd : b.disposed = false) (ht : t ∈ b.tags) : b.Stands (b.ack t).1 ∧
    (b.ack t).1.acked = b.acked ++ [t] ∧ (b.ack t).1.nacked = b.nacked ∧
      (b.ack t).1.backlog = b.backlog := by
  rw [ack_eq hd ht]
  refine ⟨⟨rfl, rfl, rfl, rfl, rfl, ?_⟩, rfl, rfl, rfl⟩
  simp [record, Operation.isSettlement]

/-- A message is delivered under the next tag. -/
def delivered (b : Broker κ) (body : Body) : Broker κ :=
  { b with lastTag := b.lastTag + 1, unsettled := b.unsettled ++ [(b.lastTag + 1, body)] }

/-- The messages that are rejected go to the backlog. -/
theorem rejected_nack (hd : b.disposed = false) (ht : t ∈ b.tags) :
    b.Rejected (b.nack t multiple).1 := by
  rw [nack_eq hd ht]
  refine ⟨⟨rfl, rfl, rfl, rfl, rfl, ?_⟩, rfl, ?_⟩
  · simp [record, Operation.isSettlement]
  · simp only [List.length_append, List.length_map]
    omega

end Broker

namespace Harness
variable {M : Type} {cfg : Setup M} {h h' : Harness M} {g : Nat}

/-- Acceptable rejects go through if the connection fails none of them. -/
theorem nackAll_granted {rejects : List (Nat × Bool)} (hgranted : ∀ t, cfg.connection.nack t = none)
    (hd : h.broker.disposed = false) (ha : Accepted {t | t ∈ h.broker.tags} rejects) :
    ∃ broker, h.nackAll cfg rejects = ({ h with broker }, .ok ()) ∧ h.broker.Rejected broker := by
  induction rejects generalizing h with
  | nil => exact ⟨h.broker, rfl, .refl⟩
  | cons r rest ih =>
    obtain ⟨tag, multiple⟩ := r
    obtain ⟨htag, hrest⟩ := ha
    obtain ⟨b, hb, hs, _⟩ := @Broker.nack_of_unsettled Nat h.broker tag multiple hd htag
    have hrejected : h.broker.Rejected b := by
      have hall := @Broker.rejected_nack Nat h.broker tag multiple hd htag
      rwa [hb] at hall
    have hleft : {t | t ∈ b.tags} =
        {t ∈ {t | t ∈ h.broker.tags} | Broker.covers tag multiple t = false} := by
      ext t
      simp only [Set.mem_ofPred_eq, hs.tags, Bool.not_eq_true]
    obtain ⟨broker, heq, hthen⟩ := @ih { h with broker := b } (hs.disposed.trans hd) (hleft ▸ hrest)
    refine ⟨broker, ?_, hrejected.trans hthen⟩
    rw [nackAll, nack, hgranted]
    simp only [hb]
    exact heq

/-- A consumer whose cancel was confirmed hands its messages back. -/
theorem teardown_of_issued {life : Lifecycle}
    (hc : (h.life g).setComplete ((h.generations[g]?.map (·.consumer)).getD "") = (life, .ok ()))
    (hn : ({ h.changeLife g fun _ => life with ledger := h.ledger.teardown.2 } :
      Harness M).nackAll cfg h.ledger.plan.rejects = (h', .ok ())) :
    h.teardown cfg g = h'.changeLife g (·.signalStopped) := by
  rw [teardown, hc]
  simp only [Ledger.teardown] at hn ⊢
  rw [hn]

end Harness

namespace CommandLine

namespace Replay
variable (r : Replay) (clock : Nat) (holding : Bool)

/-- The message of a line that the caller waits for. -/
def matched? (line : String) : Option Json :=
  (r.setup.format.decode? (Utf8.encode line)).filter fun m =>
    (m.member? r.field).any (·.same r.expected)

/-- The wait of the caller. -/
def caller (stage : WaitStage Json) (outcome : OneShot (Outcome Json)) : Wait Json where
  description := r.description
  predicate := r.predicate
  stage := stage
  outcome := outcome

/-- The consumer that subscribes. -/
def subscriber : Consumer Nat := ⟨r.consumerTag, r.settings.priority.toInt, 0⟩

/-- The life of a consumer that is attached. -/
def begun : Lifecycle := ({} : Lifecycle).setStarted

/-- What comes of the callback. -/
def result (message : Json) : Except Failure Unit :=
  if r.failProcessing then .error { outer := "processing rejected " ++ message.print } else .ok ()

/-- What the caller was told. -/
def told : WaitStage Json → List (Nat × Notice Json)
  | .starting _ => []
  | .ended o => [(0, .registered), (0, .result o)]
  | _ => [(0, .registered)]

/-- The caller asks for its wait. The broker may be slow to confirm cancels. -/
def calling : Harness Json :=
  { Harness.initial r.setup with
    clock
    broker := { holding }
    waits := [r.caller .calling .pending] }

/-- Its waiter is listed, and the consumer is still to subscribe. -/
def opening : Harness Json :=
  { Harness.initial r.setup with
    clock
    broker := { holding }
    waits := [r.caller (.starting 0) .pending]
    waiters := [{ id := 0, description := r.description, predicate := r.predicate }]
    generations := [{ stage := .created none }]
    current := some 0 }

end Replay

/-- The consumer is attached, and no line was matched so far. -/
structure Listening where
  clock : Nat := 0
  stage : WaitStage Json
  waiter : Waiter Json
  deadline : Option Nat := none
  inbound : List Delivery := []
  broker : Broker Nat
  ledger : Ledger := {}

/-- A line was matched. -/
structure Matched where
  clock : Nat
  stage : WaitStage Json
  outcome : OneShot (Outcome Json) := .pending
  consumer : Generation
  tag : Nat
  message : Json
  claim : ClaimStage := .claimed
  cancelCalls : Nat := 0
  broker : Broker Nat
  ledger : Ledger
  calls : List (CallNote Json) := []

namespace Listening

def harness (r : Replay) (s : Listening) : Harness Json where
  clock := s.clock
  broker := s.broker
  ledger := s.ledger
  waiters := [s.waiter]
  waits := [r.caller s.stage .pending]
  generations := [{
    life := Replay.begun
    stage := .routing s.deadline
    consumer := r.consumerTag
    inbound := s.inbound }]
  current := some 0
  subscriptions := [0]
  permits := r.settings.permits
  notices := Replay.told s.stage

end Listening

namespace Matched

def harness (r : Replay) (s : Matched) : Harness Json where
  clock := s.clock
  broker := s.broker
  cancelCalls := s.cancelCalls
  ledger := s.ledger
  waits := [r.caller s.stage s.outcome]
  generations := [s.consumer]
  current := some 0
  subscriptions := [0]
  claims := [{
    tag := s.tag
    wait := 0
    generation := 0
    message := s.message
    callback := some (r.callback s.message)
    stage := s.claim }]
  permits := r.settings.permits - if s.claim.holdsPermit then 1 else 0
  calls := s.calls
  notices := Replay.told s.stage

end Matched

namespace Replay
variable {r : Replay} {clock : Nat} {holding : Bool}

/-! A caller comes, and a consumer subscribes. -/

theorem step?_calling (t : Task) : (r.calling clock holding).step? r.setup t =
    if t = .wait 0 then some (r.opening clock holding) else none := by
  cases t with
  | wait i => cases i <;> rfl
  | generation g => rfl
  | claim c => rfl
  | callback c => rfl

/-- The consumer has subscribed. -/
def subscribed (r : Replay) (clock : Nat) (holding : Bool) : Listening where
  clock := clock
  stage := .starting 0
  waiter := { id := 0, description := r.description, predicate := r.predicate }
  broker := {
    consumers := [r.subscriber]
    operations := [.start r.consumerTag r.settings.priority.toInt]
    holding }

theorem step?_opening (t : Task) : (r.opening clock holding).step? r.setup t =
    if t = .generation 0 then some ((r.subscribed clock holding).harness r) else none := by
  cases t with
  | wait i => cases i <;> rfl
  | generation g => cases g <;> rfl
  | claim c => rfl
  | callback c => rfl

end Replay

namespace Listening
variable {r : Replay} {l : Listening} {d : Delivery} {rest : List Delivery} {t : Task}

/-- No timer is due. -/
structure Early (l : Listening) : Prop where
  awaiting : ∀ deadline, l.stage = .awaiting deadline → l.clock < deadline
  routing : ∀ deadline, l.deadline = some deadline → l.clock < deadline

theorem step?_elsewhere (ht : t ≠ .wait 0) (ht' : t ≠ .generation 0) :
    (l.harness r).step? r.setup t = none := by
  cases t with
  | wait i =>
    cases i with
    | zero => exact (ht rfl).elim
    | succ i => rfl
  | generation g =>
    cases g with
    | zero => exact (ht' rfl).elim
    | succ g => rfl
  | claim c => rfl
  | callback c => rfl

/-- The caller learns that its consumer is attached. -/
theorem step?_starting (hs : l.stage = .starting 0) : (l.harness r).step? r.setup (.wait 0) =
    some ({ l with stage := .registered }.harness r) := by
  obtain ⟨clock, stage, waiter, deadline, inbound, broker, ledger⟩ := l
  subst hs
  rfl

theorem step?_awaited (hs : l.stage = .awaited) : (l.harness r).step? r.setup (.wait 0) =
    some ({ l with stage := .awaiting (l.clock + r.setup.timeout) }.harness r) := by
  obtain ⟨clock, stage, waiter, deadline, inbound, broker, ledger⟩ := l
  subst hs
  rfl

theorem step?_registered (hs : l.stage = .registered) :
    (l.harness r).step? r.setup (.wait 0) = none := by
  obtain ⟨clock, stage, waiter, deadline, inbound, broker, ledger⟩ := l
  subst hs
  rfl

/-- The caller has no outcome yet, and its deadline lies ahead. -/
theorem step?_awaiting {deadline : Nat} (he : l.Early) (hs : l.stage = .awaiting deadline) :
    (l.harness r).step? r.setup (.wait 0) = none := by
  have hlate : ¬ deadline ≤ l.clock := Nat.not_le.2 (he.awaiting deadline hs)
  obtain ⟨clock, stage, waiter, unmatched, inbound, broker, ledger⟩ := l
  subst hs
  exact if_neg hlate

/-- Routing goes on as long as no deadline has passed. -/
theorem step?_routing (he : l.Early) : (l.harness r).step? r.setup (.generation 0) =
    match l.inbound with
    | d :: rest => some (({ l with inbound := rest }.harness r).dispatch r.setup 0 l.deadline d)
    | [] => if (l.harness r).handles r.setup 0 then none else some ((l.harness r).leave r.setup 0) := by
  have hlate : l.deadline.any (· ≤ l.clock) = false := by
    cases hd : l.deadline with
    | none => rfl
    | some deadline => simpa using he.routing deadline hd
  change (l.harness r).route? r.setup 0 l.deadline = _
  change (if false = true then some ((l.harness r).leave r.setup 0)
    else if l.deadline.any (· ≤ l.clock) = true then _ else match l.inbound with
      | d :: rest => some (({ l with inbound := rest }.harness r).dispatch r.setup 0 l.deadline d)
      | [] => _) = _
  rw [hlate]
  rfl

/-- The waiter has seen a delivery that it did not take, which is to be settled in time. -/
def passed (r : Replay) (l : Listening) (d : Delivery) (rest : List Delivery) : Listening :=
  { l with
    waiter := l.waiter.see (r.setup.format.decode? d.body) d.body
    deadline := l.deadline <|> some (l.clock + r.setup.timeout)
    inbound := rest }

/-- The waiter has left with a claim, and the consumer is to stop. -/
def taken (r : Replay) (l : Listening) (d : Delivery) (rest : List Delivery) (m : Json) : Matched where
  clock := l.clock
  stage := l.stage
  consumer := {
    life := Replay.begun.stop
    stage := .routing none
    consumer := r.consumerTag
    inbound := rest }
  tag := d.tag
  message := m
  broker := l.broker
  ledger := l.ledger.startProcessing d.tag

theorem step?_unmatched (he : l.Early) (hin : l.inbound = d :: rest)
    (hm : ∀ m, r.setup.format.decode? d.body = some m → l.waiter.matchesMessage m = false) :
    (l.harness r).step? r.setup (.generation 0) = some ((l.passed r d rest).harness r) := by
  rw [step?_routing he, hin]
  obtain ⟨clock, stage, waiter, deadline, inbound, broker, ledger⟩ := l
  dsimp only
  rw [Harness.dispatch, passed]
  cases hdecoded : r.setup.format.decode? d.body with
  | none => rfl
  | some m =>
    have hoffer : offerMessage [waiter] m d.body = ([waiter.offer m d.body], none) := by
      rw [offerMessage, hm m hdecoded]
      rfl
    dsimp only [harness, firstMatch]
    rw [hoffer]
    rfl

theorem step?_matched {m : Json} (he : l.Early) (hin : l.inbound = d :: rest)
    (hid : l.waiter.id = 0) (hdecoded : r.setup.format.decode? d.body = some m)
    (hm : l.waiter.matchesMessage m = true) :
    (l.harness r).step? r.setup (.generation 0) = some ((l.taken r d rest m).harness r) := by
  rw [step?_routing he, hin]
  obtain ⟨clock, stage, ⟨id, description, predicate, count, observed, malformed, failures⟩, deadline,
    inbound, broker, ledger⟩ := l
  obtain rfl : id = 0 := hid
  dsimp only
  rw [Harness.dispatch, hdecoded]
  dsimp only [harness, firstMatch]
  rw [offerMessage, hm]
  rfl

/-- A message is published: the consumer receives it. -/
def published (l : Listening) (body : Body) : Listening :=
  { l with
    broker := l.broker.delivered body
    ledger := l.ledger.observe (l.broker.lastTag + 1)
    inbound := l.inbound ++ [⟨l.broker.lastTag + 1, body⟩] }

theorem act?_publish (hc : l.broker.consumers = [r.subscriber]) (body : Body) :
    ∃ reply, (l.harness r).act? r.setup (.publish body) =
      some ((l.published body).harness r, reply) := by
  have hpublish : (l.harness r).broker.publish body =
      (l.broker.delivered body, some (l.broker.lastTag + 1, 0)) := Broker.publish_of_single hc
  rw [Harness.act?, Harness.publish]
  simp only [hpublish]
  exact ⟨_, rfl⟩

theorem act?_await (hs : l.stage = .registered) : (l.harness r).act? r.setup (.await 0) =
    some ({ l with stage := .awaited }.harness r, .done) := by
  obtain ⟨clock, stage, waiter, deadline, inbound, broker, ledger⟩ := l
  subst hs
  rfl

theorem work_listening : (l.harness r).work r.setup = Harness.WaitStage.work l.stage +
    (1 + Harness.total (Harness.deliveryWork r.setup 1) l.inbound) := rfl

end Listening

namespace Matched
variable {r : Replay} {s : Matched} {t : Task} {b : Broker Nat} {ledger : Ledger}

theorem step?_elsewhere (hw : t ≠ .wait 0) (hg : t ≠ .generation 0) (hc : t ≠ .claim 0)
    (hb : t ≠ .callback 0) : (s.harness r).step? r.setup t = none := by
  cases t with
  | wait i =>
    cases i with
    | zero => exact (hw rfl).elim
    | succ i => rfl
  | generation g =>
    cases g with
    | zero => exact (hg rfl).elim
    | succ g => rfl
  | claim c =>
    cases c with
    | zero => exact (hc rfl).elim
    | succ c => rfl
  | callback c =>
    cases c with
    | zero => exact (hb rfl).elim
    | succ c => rfl

/-! The caller goes on. -/

theorem step?_registered (hs : s.stage = .registered) :
    (s.harness r).step? r.setup (.wait 0) = none := by
  obtain ⟨clock, stage, outcome, consumer, tag, message, claim, cancelCalls, broker, ledger,
    calls⟩ := s
  subst hs
  rfl

theorem step?_awaited (hs : s.stage = .awaited) : (s.harness r).step? r.setup (.wait 0) =
    some ({ s with stage := .awaiting (s.clock + r.setup.timeout) }.harness r) := by
  obtain ⟨clock, stage, outcome, consumer, tag, message, claim, cancelCalls, broker, ledger,
    calls⟩ := s
  subst hs
  rfl

/-- The callback has not ended yet, and the deadline lies ahead. -/
theorem step?_awaiting {deadline : Nat} (hs : s.stage = .awaiting deadline)
    (ho : s.outcome = .pending) (hearly : s.clock < deadline) :
    (s.harness r).step? r.setup (.wait 0) = none := by
  have hlate : ¬ deadline ≤ s.clock := Nat.not_le.2 hearly
  obtain ⟨clock, stage, outcome, consumer, tag, message, claim, cancelCalls, broker, ledger,
    calls⟩ := s
  subst hs ho
  exact if_neg hlate

/-- The caller gets its outcome. -/
theorem step?_answered {deadline : Nat} {o : Outcome Json} (hs : s.stage = .awaiting deadline)
    (ho : s.outcome = .resolved o) : (s.harness r).step? r.setup (.wait 0) =
    some ({ s with stage := .ended o }.harness r) := by
  obtain ⟨clock, stage, outcome, consumer, tag, message, claim, cancelCalls, broker, ledger,
    calls⟩ := s
  subst hs ho
  rfl

theorem step?_over {o : Outcome Json} (hs : s.stage = .ended o) :
    (s.harness r).step? r.setup (.wait 0) = none := by
  obtain ⟨clock, stage, outcome, consumer, tag, message, claim, cancelCalls, broker, ledger,
    calls⟩ := s
  subst hs
  rfl

/-! The consumer goes on. -/

theorem step?_left (hs : s.consumer.stage = .ended) :
    (s.harness r).step? r.setup (.generation 0) = none := by
  obtain ⟨clock, stage, outcome, ⟨life, hstage, consumer, inbound⟩, tag, message, claim,
    cancelCalls, broker, ledger, calls⟩ := s
  subst hs
  rfl

/-- The broker has taken the consumer out, and holds back the confirmation of these consumers. -/
def asked (s : Matched) (held : List (Consumer Nat)) : Matched :=
  { s with
    consumer := { s.consumer with stage := .ended }
    cancelCalls := s.cancelCalls + 1
    broker := { s.broker.record (.cancel s.consumer.consumer) with consumers := [], held } }

/-- The broker holds nothing back any longer. -/
def released (s : Matched) : Matched :=
  { s with broker := { s.broker with holding := false, held := [] } }

/-- The cancel is being confirmed, and the rejects of the consumer are to go out. -/
def completed (s : Matched) : Matched :=
  { s with
    consumer := { s.consumer with life := { Replay.begun.stop with state := .complete } }
    ledger := s.ledger.teardown.2 }

/-- The cancel is confirmed, after the rejects have gone out. -/
def departed (s : Matched) (b : Broker Nat) : Matched :=
  { s.completed with
    consumer := { s.completed.consumer with life := s.completed.consumer.life.signalStopped }
    broker := b.confirmCancel s.consumer.consumer }

/-- The consumer hands its messages back as its cancel is confirmed. -/
theorem confirm_departed (hlife : s.consumer.life = Replay.begun.stop)
    (hn : (s.completed.harness r).nackAll r.setup s.ledger.plan.rejects =
      ({ s.completed.harness r with broker := b }, .ok ())) :
    (s.harness r).confirm r.setup ⟨s.consumer.consumer, r.settings.priority.toInt, 0⟩ =
      (s.departed b).harness r := by
  have hcomplete : s.consumer.life.setComplete s.consumer.consumer =
      ({ Replay.begun.stop with state := .complete }, .ok ()) := by
    rw [hlife]
    rfl
  have hteardown : (s.harness r).teardown r.setup 0 =
      ({ s.completed.harness r with broker := b } : Harness Json).changeLife 0 (·.signalStopped) :=
    Harness.teardown_of_issued hcomplete hn
  rw [Harness.confirm]
  exact congrArg (fun h : Harness Json => { h with
    broker := h.broker.confirmCancel s.consumer.consumer }) hteardown

theorem step?_leave {deadline : Option Nat} (hs : s.consumer.stage = .routing deadline)
    (hlife : s.consumer.life = Replay.begun.stop) :
    (s.harness r).step? r.setup (.generation 0) = some ((s.harness r).leave r.setup 0) := by
  obtain ⟨clock, stage, outcome, ⟨life, hstage, consumer, inbound⟩, tag, message, claim,
    cancelCalls, broker, ledger, calls⟩ := s
  subst hs hlife
  rfl

/-- The consumer leaves, and the confirmation of its cancel is held back. -/
theorem step?_asked {deadline : Option Nat} (hs : s.consumer.stage = .routing deadline)
    (hlife : s.consumer.life = Replay.begun.stop) (hd : s.broker.disposed = false)
    (hc : s.broker.consumers = [⟨s.consumer.consumer, r.settings.priority.toInt, 0⟩])
    (hholding : s.broker.holding = true) :
    (s.harness r).step? r.setup (.generation 0) = some ((s.asked (s.broker.held ++
      [⟨s.consumer.consumer, r.settings.priority.toInt, 0⟩])).harness r) := by
  have htag : ((s.harness r).generations[0]?.map (·.consumer)).getD "" = s.consumer.consumer := rfl
  have hgranted : r.setup.connection.cancel (s.harness r).cancelCalls = none := rfl
  have hcancel := Broker.cancel_of_single hd hc
  rw [if_pos hholding] at hcancel
  have hbroker : ((s.harness r).enter 0 .ended).broker.cancel s.consumer.consumer = _ := hcancel
  rw [step?_leave hs hlife, Harness.leave]
  simp only [htag, hgranted, hbroker]
  rfl

/-- The consumer leaves: its cancel is confirmed at once, and its rejects go out. -/
theorem step?_departed {deadline : Option Nat} (hs : s.consumer.stage = .routing deadline)
    (hlife : s.consumer.life = Replay.begun.stop) (hd : s.broker.disposed = false)
    (hc : s.broker.consumers = [⟨s.consumer.consumer, r.settings.priority.toInt, 0⟩])
    (hholding : s.broker.holding = false)
    (hn : ((s.asked s.broker.held).completed.harness r).nackAll r.setup s.ledger.plan.rejects =
      ({ (s.asked s.broker.held).completed.harness r with broker := b }, .ok ())) :
    (s.harness r).step? r.setup (.generation 0) =
      some (((s.asked s.broker.held).departed b).harness r) := by
  have htag : ((s.harness r).generations[0]?.map (·.consumer)).getD "" = s.consumer.consumer := rfl
  have hgranted : r.setup.connection.cancel (s.harness r).cancelCalls = none := rfl
  have hcancel := Broker.cancel_of_single hd hc
  rw [hholding, if_neg Bool.false_ne_true] at hcancel
  have hbroker : ((s.harness r).enter 0 .ended).broker.cancel s.consumer.consumer = _ := hcancel
  rw [step?_leave hs hlife, Harness.leave]
  simp only [htag, hgranted, hbroker]
  exact congrArg some (confirm_departed (s := s.asked s.broker.held) hlife hn)

/-- The cancel that was held back is confirmed. -/
theorem act?_release (hlife : s.consumer.life = Replay.begun.stop)
    (hheld : s.broker.held = [⟨s.consumer.consumer, r.settings.priority.toInt, 0⟩])
    (hn : (s.released.completed.harness r).nackAll r.setup s.ledger.plan.rejects =
      ({ s.released.completed.harness r with broker := b }, .ok ())) :
    (s.harness r).act? r.setup .release = some ((s.released.departed b).harness r, .done) := by
  have hrelease : (s.harness r).broker.release = (s.released.broker,
      [⟨s.consumer.consumer, r.settings.priority.toInt, 0⟩]) := congrArg (Prod.mk _) hheld
  rw [Harness.act?]
  simp only [hrelease]
  exact congrArg (fun h => some (h, BrokerReply.done)) (confirm_departed (s := s.released) hlife hn)

/-! The callback runs. -/

theorem permits_pos (r : Replay) : 0 < r.settings.permits := Nat.le_max_left 1 _

theorem step?_claimed (hs : s.claim = .claimed) : (s.harness r).step? r.setup (.claim 0) =
    some ({ s with claim := .running (.spawned (r.callback s.message)) }.harness r) := by
  obtain ⟨clock, stage, outcome, consumer, tag, message, claim, cancelCalls, broker, ledger,
    calls⟩ := s
  subst hs
  exact congrArg some (if_pos (permits_pos r))

theorem step?_spawned (hs : s.claim = .running (.spawned (r.callback s.message))) :
    ∃ calls, (s.harness r).step? r.setup (.callback 0) = some ({ s with
      claim := .running (.returned (r.result s.message)), calls }.harness r) := by
  obtain ⟨clock, stage, outcome, consumer, tag, message, claim, cancelCalls, broker, ledger,
    calls⟩ := s
  obtain rfl : claim = .running (.spawned (r.callback message)) := hs
  dsimp only [Replay.callback, Replay.result]
  cases hfails : r.failProcessing with
  | true => exact ⟨_, rfl⟩
  | false => exact ⟨_, rfl⟩

theorem permits_back (r : Replay) : r.settings.permits - 1 + 1 = r.settings.permits :=
  Nat.sub_add_cancel (permits_pos r)

/-- What is left to do once the delivery of a claim is seen to. -/
theorem returnPermit_concluded {claim : ClaimStage} (hp : claim.holdsPermit = true)
    (hs : s.claim = claim) {o : Outcome Json} :
    (((({ s.harness r with broker := b, ledger } : Harness Json).complete 0 o).enterClaim 0
      .settled).returnPermit) = { s with
        outcome := s.outcome.resolve o, claim := .settled, broker := b, ledger }.harness r := by
  obtain ⟨clock, stage, outcome, consumer, tag, message, claim', cancelCalls, broker, ledger',
    calls⟩ := s
  obtain rfl : claim' = claim := hs
  have hback : r.settings.permits - (if claim'.holdsPermit = true then 1 else 0) + 1 =
      r.settings.permits := by
    rw [if_pos hp]
    exact permits_back r
  exact congrArg (fun permits => ({ Matched.harness r ⟨clock, stage, outcome.resolve o, consumer, tag,
    message, .settled, cancelCalls, b, ledger, calls⟩ with permits } : Harness Json)) hback

theorem step?_returned {result : Except Failure Unit} (hs : s.claim = .running (.returned result)) :
    (s.harness r).step? r.setup (.claim 0) = some ((s.harness r).conclude r.setup 0 {
      tag := s.tag
      wait := 0
      generation := 0
      message := s.message
      callback := some (r.callback s.message)
      stage := s.claim } result) := by
  obtain ⟨clock, stage, outcome, consumer, tag, message, claim, cancelCalls, broker, ledger,
    calls⟩ := s
  subst hs
  rfl

/-- The callback has succeeded: its delivery is acknowledged. -/
theorem step?_succeeded (hs : s.claim = .running (.returned (.ok ())))
    (hack : s.broker.ack s.tag = (b, .ok ()))
    (hend : s.ledger.endProcessing s.tag .acked = .ok ledger) :
    (s.harness r).step? r.setup (.claim 0) = some ({ s with
      outcome := s.outcome.resolve (.ok s.message)
      claim := .settled
      broker := b
      ledger }.harness r) := by
  have hacked : (s.harness r).ack r.setup s.tag = ({ s.harness r with broker := b }, .ok ()) := by
    have hgranted : r.setup.connection.ack s.tag = none := rfl
    have hbroker : (s.harness r).broker.ack s.tag = (b, .ok ()) := hack
    rw [Harness.ack]
    simp only [hgranted, hbroker]
  have hsettled : ({ s.harness r with broker := b } : Harness Json).settle s.tag .acked =
      { s.harness r with broker := b, ledger } := Harness.settle_of_ok hend
  rw [step?_returned hs, Harness.conclude]
  simp only [hacked, hsettled]
  exact congrArg some (returnPermit_concluded rfl hs)

/-- The callback has failed before the consumer hands its messages back, which is going to reject the
delivery. -/
theorem step?_failed_early {failure : Failure} (hs : s.claim = .running (.returned (.error failure)))
    (hlife : s.consumer.life.state.isTerminal = false)
    (hend : s.ledger.endProcessing s.tag .shouldNack = .ok ledger) :
    (s.harness r).step? r.setup (.claim 0) = some ({ s with
      outcome := s.outcome.resolve (.error (.processing s.tag failure))
      claim := .settled
      ledger }.harness r) := by
  have hrejected : (s.harness r).rejectFailed r.setup s.tag = { s.harness r with ledger } := by
    have hstate : ((s.harness r).currentState.map (·.isTerminal)).getD true = false := hlife
    rw [Harness.rejectFailed, hstate]
    exact Harness.settle_of_ok hend
  rw [step?_returned hs, Harness.conclude]
  simp only [hrejected]
  exact congrArg some (returnPermit_concluded rfl hs)

/-- The callback has failed after that, and its delivery is rejected now. -/
theorem step?_failed_late {failure : Failure} (hs : s.claim = .running (.returned (.error failure)))
    (hlife : s.consumer.life.state.isTerminal = true)
    (hend : s.ledger.endProcessing s.tag .alreadyNacked = .ok ledger)
    (hnack : s.broker.nack s.tag false = (b, .ok ())) :
    (s.harness r).step? r.setup (.claim 0) = some ({ s with
      outcome := s.outcome.resolve (.error (.processing s.tag failure))
      claim := .settled
      broker := b
      ledger }.harness r) := by
  have hsettled : (s.harness r).settle s.tag .alreadyNacked = { s.harness r with ledger } :=
    Harness.settle_of_ok hend
  have hnacked : ({ s.harness r with ledger } : Harness Json).nack r.setup s.tag false =
      ({ s.harness r with broker := b, ledger }, .ok ()) := by
    have hgranted : r.setup.connection.nack s.tag = none := rfl
    have hbroker : (s.harness r).broker.nack s.tag false = (b, .ok ()) := hnack
    rw [Harness.nack]
    simp only [hgranted, hbroker]
  have hrejected : (s.harness r).rejectFailed r.setup s.tag =
      { s.harness r with broker := b, ledger } := by
    have hstate : ((s.harness r).currentState.map (·.isTerminal)).getD true = true := hlife
    rw [Harness.rejectFailed, hstate]
    simp only [hsettled, hnacked, if_true]
  rw [step?_returned hs, Harness.conclude]
  simp only [hrejected]
  exact congrArg some (returnPermit_concluded rfl hs)

/-! The replay goes on. -/

/-- A message is published: the consumer, which is to stop, receives it. -/
def published (s : Matched) (body : Body) : Matched :=
  { s with
    consumer := { s.consumer with
      inbound := s.consumer.inbound ++ [⟨s.broker.lastTag + 1, body⟩] }
    broker := s.broker.delivered body
    ledger := s.ledger.observe (s.broker.lastTag + 1) }

theorem act?_publish (hc : s.broker.consumers = [r.subscriber]) (body : Body) :
    ∃ reply, (s.harness r).act? r.setup (.publish body) =
      some ((s.published body).harness r, reply) := by
  have hpublish : (s.harness r).broker.publish body =
      (s.broker.delivered body, some (s.broker.lastTag + 1, 0)) := Broker.publish_of_single hc
  rw [Harness.act?, Harness.publish]
  simp only [hpublish]
  exact ⟨_, rfl⟩

theorem act?_await (hs : s.stage = .registered) : (s.harness r).act? r.setup (.await 0) =
    some ({ s with stage := .awaited }.harness r, .done) := by
  obtain ⟨clock, stage, outcome, consumer, tag, message, claim, cancelCalls, broker, ledger,
    calls⟩ := s
  subst hs
  rfl

theorem work_matched : (s.harness r).work r.setup = Harness.WaitStage.work s.stage +
    (Harness.Stage.work s.consumer.stage +
      Harness.total (Harness.deliveryWork r.setup 1) s.consumer.inbound) +
    Harness.ClaimStage.work (r.callback s.message).length s.claim := rfl

end Matched
end CommandLine
end Intercept
