import Intercept.Broker.Recorded
import Intercept.Proofs.Broker.Account
import Intercept.Proofs.Broker.Log

/-! What calls do to a broker whose consumers note what they are told. -/
namespace Intercept

namespace Broker
variable {κ α : Type} {b b' : Broker κ} {e : BrokerError} {op : Operation} {t : Nat} {tag : String}
  {multiple : Bool} {run : Broker κ → Broker κ × Except BrokerError α}

/-- What a call that fails leaves behind. A released channel does not take note of it. -/
inductive Fails (b : Broker κ) : Broker κ → BrokerError → Prop
  | closed : b.disposed = true → Fails b b .closed
  | refused (op : Operation) (v : Violation) : b.disposed = false → op.isConfirmation = false → Fails b
      { b with operations := b.operations ++ [op], violations := b.violations ++ [v] }
      (.protocol v.text)

/-- An operation that fails on an open channel does so by a violation. -/
theorem fails_onOpen (hop : op.isConfirmation = false) (hrun : (run (b.record op)).2 = .error e → ∃ v,
      (run (b.record op)).1 = ((b.record op).violate (α := α) v).1 ∧ e = .protocol v.text)
    (he : (b.onOpen op run).2 = .error e) : b.Fails (b.onOpen op run).1 e := by
  unfold onOpen at he ⊢
  split at he
  · next hd =>
    cases he
    rw [if_pos hd]
    exact .closed hd
  · next hd =>
    obtain ⟨v, hb, rfl⟩ := hrun he
    rw [if_neg hd, hb]
    exact .refused op v (Bool.eq_false_iff.2 hd) hop

theorem fails_start {priority : Int} {sink : κ} (he : (b.start tag priority sink).2 = .error e) :
    b.Fails (b.start tag priority sink).1 e :=
  fails_onOpen rfl nofun he

theorem fails_ack (he : (b.ack t).2 = .error e) : b.Fails (b.ack t).1 e := by
  refine fails_onOpen rfl (fun he => ?_) he
  split at he
  · cases he
  · next hun =>
    cases he
    exact ⟨.unknownAck t, by rw [if_neg hun], rfl⟩

theorem fails_nack (he : (b.nack t multiple).2 = .error e) : b.Fails (b.nack t multiple).1 e := by
  refine fails_onOpen rfl (fun he => ?_) he
  split at he
  · cases he
  · next hun =>
    cases he
    exact ⟨.unknownNack t multiple, by rw [if_neg hun], rfl⟩

/-- The consumer that a cancel takes out: the earliest one with that tag. -/
structure Earliest (tag : String) (consumers rest : List (Consumer κ)) (c : Consumer κ) : Prop where
  tag_eq : c.tag = tag
  split : ∃ before behind, consumers = before ++ c :: behind ∧ rest = before ++ behind ∧
    ∀ d ∈ before, d.tag ≠ tag

theorem Earliest.perm {consumers rest : List (Consumer κ)} {c : Consumer κ}
    (h : Earliest tag consumers rest c) : consumers.Perm (c :: rest) := by
  obtain ⟨_, before, behind, rfl, rfl, _⟩ := h
  exact List.perm_middle

theorem Earliest.sublist {consumers rest : List (Consumer κ)} {c : Consumer κ}
    (h : Earliest tag consumers rest c) : rest.Sublist consumers := by
  obtain ⟨_, before, behind, rfl, rfl, _⟩ := h
  simp

theorem Earliest.find? {consumers rest : List (Consumer κ)} {c : Consumer κ}
    (h : Earliest tag consumers rest c) : consumers.find? (·.tag == tag) = some c := by
  obtain ⟨htag, before, behind, rfl, _, hbefore⟩ := h
  refine List.find?_eq_some_iff_append.2 ⟨by simp [htag], before, behind, rfl, fun d hd => ?_⟩
  simpa using hbefore d hd

theorem earliest_of_find? {consumers : List (Consumer κ)} {c : Consumer κ}
    (hc : consumers.find? (·.tag == tag) = some c) :
    Earliest tag consumers (consumers.eraseP (·.tag == tag)) c := by
  obtain ⟨htag, before, behind, rfl, hbefore⟩ := List.find?_eq_some_iff_append.1 hc
  refine ⟨eq_of_beq htag, before, behind, rfl, ?_, fun d hd => by simpa using hbefore d hd⟩
  rw [List.eraseP_append_right _ (by simpa using hbefore)]
  simp [htag]

/-- The consumer of the highest priority; of equal ones the one that was attached first. -/
def Foremost (consumers : List (Consumer κ)) (c : Consumer κ) : Prop :=
  ∃ before behind, consumers = before ++ c :: behind ∧ (∀ d ∈ before, d.priority < c.priority) ∧
    ∀ d ∈ behind, d.priority ≤ c.priority

theorem preferred_eq_none_iff {consumers : List (Consumer κ)} :
    preferred consumers = none ↔ consumers = [] := by
  cases consumers with
  | nil => simp [preferred]
  | cons c rest =>
    simp only [preferred]
    split
    · simp
    · split <;> simp

theorem foremost_of_preferred {consumers : List (Consumer κ)} {c : Consumer κ}
    (hc : preferred consumers = some c) : Foremost consumers c := by
  induction consumers generalizing c with
  | nil => cases hc
  | cons d rest ih =>
    simp only [preferred] at hc
    split at hc
    · next hnone =>
      obtain rfl := preferred_eq_none_iff.1 hnone
      cases hc
      exact ⟨[], [], rfl, nofun, nofun⟩
    · next f hf =>
      obtain ⟨before, behind, rfl, hbefore, hbehind⟩ := ih hf
      split at hc
      · next hle =>
        cases hc
        refine ⟨[], _, rfl, nofun, fun g hg => ?_⟩
        rcases List.mem_append.1 hg with hg | hg
        · have := hbefore g hg
          omega
        · rcases List.mem_cons.1 hg with rfl | hg
          · exact hle
          · have := hbehind g hg
            omega
      · next hlt =>
        cases hc
        refine ⟨d :: before, behind, rfl, fun g hg => ?_, hbehind⟩
        rcases List.mem_cons.1 hg with rfl | hg
        · omega
        · exact hbefore g hg

/-- Exactly the unsettled tags of an open channel can be acknowledged. -/
theorem ack_ok_iff : (b.ack t).2 = .ok () ↔ b.disposed = false ∧ t ∈ b.tags := by
  cases hd : b.disposed with
  | true => simp [ack_of_disposed hd]
  | false =>
    by_cases ht : t ∈ b.tags
    · simp [ack_eq hd ht, ht]
    · have hun : (b.record (.ack t)).isUnsettled t = false :=
        Bool.eq_false_iff.2 fun h => ht (isUnsettled_iff.1 h)
      simp [ack, onOpen, hd, hun, violate, ht]

/-- Exactly the unsettled tags of an open channel can be rejected. -/
theorem nack_ok_iff : (b.nack t multiple).2 = .ok () ↔ b.disposed = false ∧ t ∈ b.tags := by
  cases hd : b.disposed with
  | true => simp [nack_of_disposed hd]
  | false =>
    by_cases ht : t ∈ b.tags
    · simp [nack_eq hd ht, ht]
    · have hun : (b.record (.nack t multiple)).isUnsettled t = false :=
        Bool.eq_false_iff.2 fun h => ht (isUnsettled_iff.1 h)
      simp [nack, onOpen, hd, hun, violate, ht]

end Broker

/-- The delivery that a consumer is told of. -/
def ConsumerEvent.delivery? : ConsumerEvent → Option (Nat × Body)
  | received tag body => some (tag, body)
  | _ => none

/-- Whether a consumer is told that its cancel is confirmed. -/
def ConsumerEvent.isCancel : ConsumerEvent → Bool
  | cancelled => true
  | _ => false

@[simp] theorem ConsumerEvent.isCancel_cancelled : cancelled.isCancel = true := rfl

namespace RecordedBroker
variable {r r' : RecordedBroker} {call : BrokerCall} {early late : List BrokerCall} {body : Body}
  {bodies : List Body} {e : BrokerError}

/-- The broker after some calls. -/
def after (r : RecordedBroker) : List BrokerCall → RecordedBroker
  | [] => r
  | call :: rest => (r.apply call).1.after rest

@[simp] theorem after_nil : r.after [] = r := rfl

@[simp] theorem after_cons {rest : List BrokerCall} :
    r.after (call :: rest) = (r.apply call).1.after rest := rfl

theorem after_append : r.after (early ++ late) = (r.after early).after late := by
  induction early generalizing r with
  | nil => rfl
  | cons call rest ih => simp [ih]

/-- The deliveries that the consumers were told of, in this order. -/
def deliveries (r : RecordedBroker) : List (Nat × Body) := r.events.filterMap (·.2.delivery?)

theorem deliveries_append {told : List (String × ConsumerEvent)}
    (h : r'.events = r.events ++ told) :
    r'.deliveries = r.deliveries ++ told.filterMap (·.2.delivery?) := by
  rw [deliveries, h, List.filterMap_append, deliveries]

/-! Publishing. -/

/-- What becomes of a message. It goes to the backlog if nobody is attached, and to the foremost
consumer otherwise. -/
inductive Publishes (r : RecordedBroker) (body : Body) : RecordedBroker → Option Nat → Prop
  | stored : r.broker.consumers = [] → Publishes r body
    { r with broker := { r.broker with backlog := r.broker.backlog ++ [body] } } none
  | delivered (c : Consumer String) : Broker.Foremost r.broker.consumers c → Publishes r body
    { broker := { r.broker with
        lastTag := r.broker.lastTag + 1
        unsettled := r.broker.unsettled ++ [(r.broker.lastTag + 1, body)] }
      events := r.events ++ [(c.sink, .received (r.broker.lastTag + 1) body)] }
    (some (r.broker.lastTag + 1))

theorem publishes_publish (r : RecordedBroker) (body : Body) :
    r.Publishes body (r.publish body).1 (r.publish body).2 := by
  unfold publish Broker.publish
  cases hp : Broker.preferred r.broker.consumers with
  | none => exact .stored (Broker.preferred_eq_none_iff.1 hp)
  | some c => exact .delivered c (Broker.foremost_of_preferred hp)

@[simp] theorem apply_publish : (r.apply (.publish body)).1 = (r.publish body).1 := rfl

theorem apply_publishAll_cons : (r.apply (.publishAll (body :: bodies))).1 =
    ((r.publish body).1.apply (.publishAll bodies)).1 := rfl

/-- Several messages are published one after the other. -/
theorem apply_publishAll :
    (r.apply (.publishAll bodies)).1 = r.after (bodies.map .publish) := by
  induction bodies generalizing r with
  | nil => rfl
  | cons body rest ih => rw [apply_publishAll_cons, ih]; rfl

theorem apply_publishValue {encoded : Option Body} :
    (r.apply (.publishValue encoded)).1 = r.after (encoded.toList.map .publish) := by
  cases encoded <;> rfl

/-! Calls that concern several consumers. -/

/-- The consumers are told of the confirmations in turn, and each is logged. -/
theorem foldl_confirm (r : RecordedBroker) (held : List (Consumer String)) :
    held.foldl confirm r = {
      broker := { r.broker with
        operations := r.broker.operations ++ held.map fun c => .cancelConfirmed c.tag
        confirmed := r.broker.confirmed + held.length }
      events := r.events ++ held.map fun c => (c.sink, .cancelled) } := by
  induction held generalizing r with
  | nil => simp
  | cons c rest ih =>
    rw [List.foldl_cons, ih]
    have hcount : r.broker.confirmed + 1 + rest.length = r.broker.confirmed + (rest.length + 1) := by
      omega
    simp [confirm, note, Broker.confirmCancel, Broker.record, hcount]

/-- The attached consumers are told of the failure in turn. -/
theorem foldl_note (r : RecordedBroker) (consumers : List (Consumer String))
    (event : ConsumerEvent) :
    consumers.foldl (fun r c => r.note c.sink event) r =
      { r with events := r.events ++ consumers.map fun c => (c.sink, event) } := by
  induction consumers generalizing r with
  | nil => simp
  | cons c rest ih =>
    rw [List.foldl_cons, ih]
    simp [note]

/-! Cancels, and calls that fail. -/

/-- What becomes of a cancel. It fails, or the earliest consumer with that tag is taken out, whose
confirmation is held back or comes at once. -/
inductive Cancels (r : RecordedBroker) (tag : String) : RecordedBroker → BrokerReply → Prop
  | failed (b : Broker String) (e : BrokerError) : r.broker.Fails b e →
    Cancels r tag { r with broker := b } (.result (.error e))
  | held (c : Consumer String) (rest : List (Consumer String)) : r.broker.disposed = false →
    Broker.Earliest tag r.broker.consumers rest c → r.broker.holding = true → Cancels r tag
    { r with broker := { r.broker with
        operations := r.broker.operations ++ [.cancel tag]
        consumers := rest
        held := r.broker.held ++ [c] } } (.result (.ok ()))
  | confirmed (c : Consumer String) (rest : List (Consumer String)) : r.broker.disposed = false →
    Broker.Earliest tag r.broker.consumers rest c → r.broker.holding = false → Cancels r tag
    { broker := { r.broker with
        operations := r.broker.operations ++ [.cancel tag, .cancelConfirmed c.tag]
        consumers := rest
        confirmed := r.broker.confirmed + 1 }
      events := r.events ++ [(c.sink, .cancelled)] } (.result (.ok ()))

theorem cancels_apply (r : RecordedBroker) (tag : String) :
    r.Cancels tag (r.apply (.cancel tag)).1 (r.apply (.cancel tag)).2 := by
  cases hd : r.broker.disposed with
  | true => simpa [apply, Broker.cancel_of_disposed hd] using Cancels.failed _ _ (.closed hd)
  | false =>
    cases hc : r.broker.consumers.find? (·.tag == tag) with
    | none =>
      simpa [apply, Broker.cancel, Broker.onOpen, hd, Broker.record, hc, Broker.violate] using
        @Cancels.failed r tag _ _ (.refused (.cancel tag) (.unknownConsumer tag) hd rfl)
    | some c =>
      have hearliest := Broker.earliest_of_find? hc
      cases hh : r.broker.holding with
      | true =>
        simpa [apply, Broker.cancel, Broker.onOpen, hd, Broker.record, hc, hh] using
          Cancels.held c _ hd hearliest hh
      | false =>
        simpa [apply, Broker.cancel, Broker.onOpen, hd, Broker.record, hc, hh, confirm, note,
          Broker.confirmCancel] using Cancels.confirmed c _ hd hearliest hh

/-- A call that fails changes nothing but the log of the broker, and nobody is told. -/
theorem fails_apply (he : (r.apply call).2 = .result (.error e)) :
    ∃ b, (r.apply call).1 = { r with broker := b } ∧ r.broker.Fails b e := by
  cases call with
  | start tag priority name => exact ⟨_, rfl, Broker.fails_start (BrokerReply.result.inj he)⟩
  | ack t => exact ⟨_, rfl, Broker.fails_ack (BrokerReply.result.inj he)⟩
  | nack t multiple => exact ⟨_, rfl, Broker.fails_nack (BrokerReply.result.inj he)⟩
  | cancel tag =>
    have hcancels := cancels_apply r tag
    rw [he] at hcancels
    generalize (r.apply (.cancel tag)).1 = r' at hcancels ⊢
    cases hcancels with
    | failed b e hfails => exact ⟨b, rfl, hfails⟩
  | publishValue encoded => cases encoded <;> cases he
  | _ => cases he

end RecordedBroker
end Intercept
