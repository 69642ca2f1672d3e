import Mathlib.Logic.Relation
import Intercept.Proofs.Harness.Offering

/-! A harness as a client of its broker: whatever it does, its broker gets into another state only
by calls on it, one after the other. -/
namespace Intercept

namespace Broker
variable {κ : Type} {b b' b'' : Broker κ}

/-- The broker after one call. -/
inductive Called (b : Broker κ) : Broker κ → Prop
  | publish (body : Body) : Called b (b.publish body).1
  | start (tag : String) (priority : Int) (sink : κ) : Called b (b.start tag priority sink).1
  | ack (tag : Nat) : Called b (b.ack tag).1
  | nack (tag : Nat) (multiple : Bool) : Called b (b.nack tag multiple).1
  | cancel (tag : String) : Called b (b.cancel tag).1
  | confirmCancel (tag : String) : Called b (b.confirmCancel tag)
  | hold : Called b b.hold
  | release : Called b b.release.1
  | consumeBacklog (count : Nat) : Called b (b.consumeBacklog count).1
  | dispose : Called b b.dispose

/-- The broker after some calls. -/
def Calls : Broker κ → Broker κ → Prop := Relation.ReflTransGen Called

theorem Calls.refl : b.Calls b := Relation.ReflTransGen.refl

theorem Calls.trans (h : b.Calls b') (h' : b'.Calls b'') : b.Calls b'' :=
  Relation.ReflTransGen.trans h h'

theorem Called.calls (h : b.Called b') : b.Calls b' := Relation.ReflTransGen.single h

end Broker

namespace Harness
variable {M : Type} {cfg : Setup M} {allowed : Act M → Prop} {h h' : Harness M} {c g i : Nat}
  {e : HarnessError}

/-! Whoever ends the harness releases the broker. -/

theorem calls_shutDown {outcome : Outcome M} : h.broker.Calls (h.shutDown outcome).broker := by
  obtain ⟨waits, heq⟩ := shutDown_eq h outcome
  rw [heq]
  exact Broker.Called.dispose.calls

/-- Only the first failure releases the channel. -/
theorem calls_fail : h.broker.Calls (h.fail e).broker := by
  rw [fail]
  cases h.failure with
  | some _ => exact .refl
  | none =>
    simp only
    cases h.current with
    | none => exact calls_shutDown (h := { h with failure := some e, current := none })
    | some g => exact calls_shutDown (h :=
        { h.changeLife g (·.setException e) with failure := some e, current := none })

theorem calls_failGeneration : h.broker.Calls (h.failGeneration g e).broker :=
  calls_fail (h := h.changeLife g (·.setException e))

theorem calls_startFailed : h.broker.Calls (h.startFailed g e).broker :=
  calls_failGeneration (h := h.enter g .ended)

/-- A connection that breaks is reported once for each consumer. -/
theorem calls_failAll {consumers : List (Consumer Nat)} :
    h.broker.Calls (consumers.foldl (fun h _ => h.fail e) h).broker := by
  induction consumers generalizing h with
  | nil => exact .refl
  | cons _ rest ih => exact calls_fail.trans ih

theorem calls_dispose : h.broker.Calls h.dispose.broker := by
  rw [dispose]
  split
  · exact .refl
  · simp only
    cases h.current with
    | none => exact calls_shutDown (h := { h with failure := some .disposed })
    | some g => exact calls_shutDown (h :=
        { h.changeLife g (·.stop) with failure := some .disposed })

/-- A dropped harness is disposed of as the last registration ends. -/
theorem calls_disposeIfUnowned : h.broker.Calls h.disposeIfUnowned.broker := by
  rw [disposeIfUnowned]
  split
  · exact calls_dispose
  · exact .refl

/-! Settlements. -/

theorem calls_ack {tag : Nat} : h.broker.Calls (h.ack cfg tag).1.broker := by
  rw [ack]
  split
  · exact .refl
  · exact (Broker.Called.ack tag).calls

theorem calls_nack {tag : Nat} {multiple : Bool} :
    h.broker.Calls (h.nack cfg tag multiple).1.broker := by
  rw [nack]
  split
  · exact .refl
  · exact (Broker.Called.nack tag multiple).calls

/-- The rejects of a plan are issued until one of them fails. -/
theorem calls_nackAll (cfg : Setup M) (h : Harness M) (rejects : List (Nat × Bool)) :
    h.broker.Calls (h.nackAll cfg rejects).1.broker := by
  induction rejects generalizing h with
  | nil => exact .refl
  | cons r rest ih =>
    have hone : h.broker.Calls (h.nack cfg r.1 r.2).1.broker := calls_nack
    rw [nackAll]
    cases hr : h.nack cfg r.1 r.2 with
    | mk h₁ result =>
      rw [hr] at hone
      cases result with
      | ok => exact hone.trans (ih h₁)
      | error e => exact hone

/-- A ledger pass issues its rejects. It ends the harness if nobody asked for the cancel, or if a
reject fails. -/
theorem calls_teardown : h.broker.Calls (h.teardown cfg g).broker := by
  rw [teardown]
  split
  · next life e _ => exact calls_fail (h := h.changeLife g fun _ => life)
  · next life _ =>
    have hrejects := calls_nackAll cfg
      { h.changeLife g fun _ => life with ledger := h.ledger.teardown.2 }
      h.ledger.teardown.1.rejects
    simp only
    split
    · next h₁ hn =>
      rw [hn] at hrejects
      exact hrejects
    · next h₁ e hn =>
      rw [hn] at hrejects
      exact hrejects.trans calls_failGeneration

theorem calls_confirm {c : Consumer Nat} : h.broker.Calls (h.confirm cfg c).broker :=
  calls_teardown.trans (Broker.Called.confirmCancel c.tag).calls

theorem calls_confirmAll {held : List (Consumer Nat)} :
    h.broker.Calls (held.foldl (fun (h : Harness M) c => h.confirm cfg c) h).broker := by
  induction held generalizing h with
  | nil => exact .refl
  | cons c rest ih => exact calls_confirm.trans ih

theorem broker_settle {tag : Nat} {settlement : Settlement} :
    (h.settle tag settlement).broker = h.broker := by
  obtain ⟨ledger, heq⟩ := settle_eq h tag settlement
  rw [heq]

/-- A callback that fails after the pass of its generation has its own reject. -/
theorem calls_rejectFailed {tag : Nat} : h.broker.Calls (h.rejectFailed cfg tag).broker := by
  rw [rejectFailed]
  split
  · have hreject : h.broker.Calls ((h.settle tag .alreadyNacked).nack cfg tag false).1.broker :=
      broker_settle (h := h) ▸ calls_nack
    split
    · next h₁ hn =>
      rw [hn] at hreject
      exact hreject
    · next h₁ e hn =>
      rw [hn] at hreject
      exact hreject.trans calls_fail
  · rw [broker_settle]
    exact .refl

/-! Generations. -/

theorem calls_attach : h.broker.Calls (h.attach cfg g).broker := by
  have hstart := (Broker.Called.start (b := h.broker) ((h.generations[g]?.map (·.consumer)).getD "")
    cfg.settings.priority.toInt g).calls
  rw [attach]
  split
  · next broker hb =>
    rw [hb] at hstart
    exact hstart
  · next broker e hb =>
    rw [hb] at hstart
    exact hstart.trans (calls_startFailed (h := { h with broker }))

theorem calls_subscribe : h.broker.Calls (h.subscribe cfg g).broker := by
  rw [subscribe]
  split
  · exact calls_teardown (h := h.enter g .ended)
  · simp only
    split
    · exact calls_attach (h := changeGeneration { h with subscriptions := _ } g _)
    · exact calls_startFailed (h := changeGeneration { h with subscriptions := _ } g _)
    · exact .refl

/-- A cancel that is confirmed at once leads to the ledger pass in the same move. -/
theorem calls_leave : h.broker.Calls (h.leave cfg g).broker := by
  have hcancel :=
    (Broker.Called.cancel (b := h.broker) ((h.generations[g]?.map (·.consumer)).getD "")).calls
  rw [leave]
  simp only
  split
  · exact calls_fail (h := { h.enter g .ended with cancelCalls := _ })
  · split
    · next broker e hb =>
      rw [show h.broker.cancel _ = _ from hb] at hcancel
      exact hcancel.trans (calls_fail (h := { h.enter g .ended with broker, cancelCalls := _ }))
    · next broker hb =>
      rw [show h.broker.cancel _ = _ from hb] at hcancel
      exact hcancel
    · next broker c hb =>
      rw [show h.broker.cancel _ = _ from hb] at hcancel
      exact hcancel.trans (calls_confirm (h := { h.enter g .ended with broker, cancelCalls := _ }))

theorem broker_expireAll (cfg : Setup M) (h : Harness M) (g : Nat) :
    (h.expireAll cfg g).broker = h.broker := by
  obtain ⟨waits, heq⟩ := expireAll_eq cfg h g
  rw [heq]
  rfl

/-- To hand out a delivery is no business of the broker. -/
theorem broker_dispatch {deadline : Option Nat} {d : Delivery} :
    (h.dispatch cfg g deadline d).broker = h.broker := by
  rw [dispatch]
  simp only
  split
  · split <;> split <;> rfl
  · split <;> rfl

theorem calls_stepGeneration? (hs : h.stepGeneration? cfg g = some h') :
    h.broker.Calls h'.broker := by
  rw [stepGeneration?, Option.bind_eq_bind, Option.bind_eq_some_iff] at hs
  obtain ⟨x, hx, hs⟩ := hs
  split at hs
  · cases hs
    exact calls_subscribe
  · cases hs
    exact .refl
  · split at hs
    · cases hs
      exact calls_subscribe
    · cases hs
      exact calls_startFailed
    · split at hs
      · cases hs
        exact calls_startFailed
      · cases hs
  · split at hs
    · split at hs
      · cases hs
        exact calls_attach
      · cases hs
        exact calls_startFailed
    · split at hs
      · cases hs
        exact calls_startFailed
      · cases hs
  · simp only [route?, hx, Option.bind_eq_bind, Option.bind_some] at hs
    split at hs
    · cases hs
      exact calls_leave
    · split at hs
      · cases hs
        rw [← broker_expireAll cfg h g]
        exact calls_leave
      · split at hs
        · cases hs
          rw [broker_dispatch]
          exact .refl
        · split at hs
          · cases hs
          · cases hs
            exact calls_leave
  · cases hs

/-! Claims. -/

theorem broker_returnPermit : h.returnPermit.broker = h.broker := by
  rw [returnPermit]
  split <;> rfl

theorem broker_launch {x : Claim M} : (h.launch c x).broker = h.broker := by
  rw [launch]
  split
  · rfl
  · exact broker_returnPermit

/-- The end of a callback is answered with an acknowledgement or a reject. -/
theorem calls_conclude {x : Claim M} {result : Except Failure Unit} :
    h.broker.Calls (h.conclude cfg c x result).broker := by
  unfold conclude
  rw [broker_returnPermit]
  cases result with
  | error failure => exact calls_rejectFailed
  | ok =>
    have hack : h.broker.Calls (h.ack cfg x.tag).1.broker := calls_ack
    simp only
    split
    · next h₁ hn =>
      rw [hn] at hack
      change h.broker.Calls (h₁.settle x.tag .acked).broker
      rw [broker_settle]
      exact hack
    · next h₁ e hn =>
      rw [hn] at hack
      exact hack.trans (calls_fail (h := h₁.complete x.wait _))

theorem calls_stepClaim? (hs : h.stepClaim? cfg c = some h') : h.broker.Calls h'.broker := by
  rw [stepClaim?, Option.bind_eq_bind, Option.bind_eq_some_iff] at hs
  obtain ⟨x, hx, hs⟩ := hs
  split at hs
  · cases hs
    rw [takePermit]
    split
    · rw [broker_launch]
      exact .refl
    · exact .refl
  · cases hs
    rw [broker_launch]
    exact .refl
  · cases hs
    exact calls_conclude
  · cases hs

theorem broker_act {x : Claim M} {actions : List Action} :
    (h.act c x actions).broker = h.broker := by
  obtain ⟨notes, heq, _⟩ := act_eq h c x actions
  rw [heq]
  rfl

/-- The broker does not notice callbacks. -/
theorem broker_stepCallback? (hs : h.stepCallback? c = some h') : h'.broker = h.broker := by
  rw [stepCallback?, Option.bind_eq_bind, Option.bind_eq_some_iff] at hs
  obtain ⟨x, hx, hs⟩ := hs
  split at hs
  · cases hs
    exact broker_act
  · split at hs
    · cases hs
      exact broker_act
    · cases hs
  · split at hs
    · cases hs
      exact broker_act
    · cases hs
  · cases hs

/-! Waits. -/

theorem broker_stopIfIdle : h.stopIfIdle.broker = h.broker := by
  rw [stopIfIdle]
  split <;> rfl

theorem broker_deregister : (h.deregister i).broker = h.broker := by
  rw [deregister]
  split
  · exact broker_stopIfIdle
  · rfl

theorem calls_register {w : Wait M} : h.broker.Calls (h.register i w).broker := by
  rw [register]
  cases h.failure with
  | some e => exact calls_disposeIfUnowned (h := (h.enterWait i (.refused e)).tell i _)
  | none =>
    simp only
    split <;> exact .refl

theorem broker_expire : (h.expire cfg i).broker = h.broker := by
  rw [expire]
  split
  · rfl
  · exact broker_stopIfIdle

/-- The broker notices a wait only if the harness is let go with it. -/
theorem calls_stepWait? (hs : h.stepWait? cfg i = some h') : h.broker.Calls h'.broker := by
  rw [stepWait?, Option.bind_eq_bind, Option.bind_eq_some_iff] at hs
  obtain ⟨w, hw, hs⟩ := hs
  split at hs
  · cases hs
    exact calls_register
  · obtain ⟨started, _, hs⟩ := Option.bind_eq_some_iff.1 hs
    cases started with
    | ok =>
      cases hs
      exact calls_disposeIfUnowned (h := (h.enterWait i .registered).tell i .registered)
    | error e =>
      cases hs
      rw [← broker_deregister (h := h) (i := i)]
      exact calls_disposeIfUnowned (h := ((h.deregister i).enterWait i (.refused e)).tell i _)
  · cases hs
    exact .refl
  · split at hs
    · cases hs
      exact .refl
    · split at hs
      · cases hs
        rw [broker_expire]
        exact .refl
      · cases hs
  · obtain ⟨outcome, _, rfl⟩ := Option.map_eq_some_iff.1 hs
    exact .refl
  · cases hs

theorem calls_giveUp (hs : h.giveUp i = some h') : h.broker.Calls h'.broker := by
  have hleft : h.broker.Calls ((h.deregister i).enterWait i .dropped).broker :=
    broker_deregister (h := h) (i := i) ▸ .refl
  rw [giveUp, Option.bind_eq_bind, Option.bind_eq_some_iff] at hs
  obtain ⟨w, hw, hs⟩ := hs
  split at hs
  · cases hs
    exact calls_disposeIfUnowned (h := h.enterWait i .dropped)
  · cases hs
    exact hleft.trans calls_disposeIfUnowned
  · cases hs
    exact hleft
  · cases hs
    exact hleft
  · cases hs
    exact hleft
  · cases hs
    exact hleft
  · cases hs
    exact .refl
  · cases hs
  · cases hs

theorem broker_await (hs : h.await i = some h') : h'.broker = h.broker := by
  rw [await, Option.bind_eq_bind, Option.bind_eq_some_iff] at hs
  obtain ⟨w, hw, hs⟩ := hs
  split at hs
  · cases hs
    rfl
  · cases hs

/-! Others. -/

theorem calls_publish {body : Body} : h.broker.Calls (h.publish body).1.broker := by
  have hpublish := (Broker.Called.publish (b := h.broker) body).calls
  rw [publish]
  split
  · next broker hb =>
    rw [hb] at hpublish
    exact hpublish
  · next broker tag g hb =>
    rw [hb] at hpublish
    exact hpublish

theorem calls_publishAll {bodies : List Body} :
    h.broker.Calls (h.publishAll bodies).1.broker := by
  induction bodies generalizing h with
  | nil => exact .refl
  | cons body rest ih => exact calls_publish.trans ih

theorem calls_handle {event : ConsumerEvent} : h.broker.Calls (h.handle cfg g event).broker := by
  cases event with
  | received tag body => exact .refl
  | cancelled => exact calls_teardown
  | failed e => exact calls_fail

/-- What comes from outside makes calls too, its own or those of the harness. -/
theorem calls_act {a : Act M} {reply : BrokerReply} (hact : h.act? cfg a = some (h', reply)) :
    h.broker.Calls h'.broker := by
  cases a with
  | call description predicate =>
    rw [act?] at hact
    split at hact <;> cases hact
    exact .refl
  | await i =>
    obtain ⟨h₁, hs, heq⟩ := Option.map_eq_some_iff.1 hact
    cases heq
    rw [broker_await hs]
    exact .refl
  | giveUp i =>
    obtain ⟨h₁, hs, heq⟩ := Option.map_eq_some_iff.1 hact
    cases heq
    exact calls_giveUp hs
  | publish body =>
    cases hact
    exact calls_publish
  | publishAll bodies =>
    cases hact
    exact calls_publishAll
  | openGate gate =>
    cases hact
    exact .refl
  | hold =>
    cases hact
    exact Broker.Called.hold.calls
  | release =>
    cases hact
    exact Broker.Called.release.calls.trans (calls_confirmAll (h := { h with broker := _ }))
  | failConnection reason =>
    cases hact
    exact calls_failAll
  | consumeBacklog count =>
    cases hact
    exact (Broker.Called.consumeBacklog count).calls
  | ack tag =>
    cases hact
    exact (Broker.Called.ack tag).calls
  | nack tag multiple =>
    cases hact
    exact (Broker.Called.nack tag multiple).calls
  | disposeBroker =>
    cases hact
    exact Broker.Called.dispose.calls
  | notify consumer event =>
    obtain ⟨_, _, hact⟩ := Option.bind_eq_some_iff.1 hact
    obtain ⟨g, _, hact⟩ := Option.bind_eq_some_iff.1 hact
    obtain ⟨_, _, hact⟩ := Option.bind_eq_some_iff.1 hact
    cases hact
    exact calls_handle
  | dispose =>
    rw [act?] at hact
    split at hact <;> cases hact
    exact calls_dispose
  | drop =>
    cases hact
    exact calls_disposeIfUnowned (h := { h with dropped := true })

/-- What leads a harness to a state makes calls on its broker. -/
theorem Reaches.calls (hr : Reaches cfg allowed h) : ({} : Broker Nat).Calls h.broker := by
  induction hr with
  | initial => exact .refl
  | act a _ _ hact ih => exact ih.trans (calls_act hact)
  | step t _ hs ih =>
    cases t with
    | wait i => exact ih.trans (calls_stepWait? hs)
    | generation g => exact ih.trans (calls_stepGeneration? hs)
    | claim c => exact ih.trans (calls_stepClaim? hs)
    | callback c => exact broker_stepCallback? hs ▸ ih
  | tick _ ih => exact ih

end Harness
end Intercept
