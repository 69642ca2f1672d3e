import Intercept.Proofs.Harness.History

/-! Who tells the callers: only the step of a wait tells its caller something, and it settles
nothing. -/
namespace Intercept.Harness
variable {M : Type} {cfg : Setup M} {allowed : Act M → Prop} {h h' : Harness M}
  {s : Nat → Harness M} {c g i m n : Nat} {e : HarnessError} {notice : Notice M}

/-! Whoever ends the harness tells no caller. -/

/-- Whoever is listed gets its outcome, of which its caller learns by its own step. -/
theorem notices_shutDown {outcome : Outcome M} : (h.shutDown outcome).notices = h.notices := by
  obtain ⟨waits, heq⟩ := shutDown_eq h outcome
  rw [heq]

theorem notices_fail : (h.fail e).notices = h.notices := by
  rw [fail]
  cases h.failure with
  | some _ => rfl
  | none => cases hc : h.current <;> exact notices_shutDown

theorem notices_failGeneration : (h.failGeneration g e).notices = h.notices := notices_fail

theorem notices_startFailed : (h.startFailed g e).notices = h.notices := notices_failGeneration

theorem notices_dispose : h.dispose.notices = h.notices := by
  rw [dispose]
  split
  · rfl
  · cases hc : h.current <;> exact notices_shutDown

theorem notices_disposeIfUnowned : h.disposeIfUnowned.notices = h.notices := by
  rw [disposeIfUnowned]
  split
  · exact notices_dispose
  · rfl

theorem notices_failAll {consumers : List (Consumer Nat)} :
    (consumers.foldl (fun h _ => h.fail e) h).notices = h.notices := by
  induction consumers generalizing h with
  | nil => rfl
  | cons _ rest ih => exact ih.trans notices_fail

/-! Nor does a generation. -/

/-- A ledger pass changes the ledger and the broker, and may end the harness. -/
theorem notices_teardown : (h.teardown cfg g).notices = h.notices := by
  rw [teardown]
  split
  · exact notices_fail
  · next life _ =>
    obtain ⟨broker, heq⟩ := nackAll_eq cfg ({ h.changeLife g fun _ => life with
      ledger := h.ledger.teardown.2 } : Harness M) h.ledger.teardown.1.rejects
    simp only
    split
    · next h₁ hn =>
      rw [hn] at heq
      change h₁.notices = h.notices
      rw [show h₁ = _ from heq]
      rfl
    · next h₁ e hn =>
      rw [hn] at heq
      rw [notices_failGeneration, show h₁ = _ from heq]
      rfl

theorem notices_confirm {c : Consumer Nat} : (h.confirm cfg c).notices = h.notices :=
  notices_teardown

theorem notices_confirmAll {held : List (Consumer Nat)} :
    (held.foldl (fun (h : Harness M) c => h.confirm cfg c) h).notices = h.notices := by
  induction held generalizing h with
  | nil => rfl
  | cons c rest ih => exact ih.trans notices_confirm

theorem notices_attach : (h.attach cfg g).notices = h.notices := by
  rw [attach]
  split
  · rfl
  · exact notices_startFailed

theorem notices_subscribe : (h.subscribe cfg g).notices = h.notices := by
  rw [subscribe]
  split
  · exact notices_teardown
  · simp only
    split
    · exact notices_attach
    · exact notices_startFailed
    · rfl

theorem notices_leave : (h.leave cfg g).notices = h.notices := by
  rw [leave]
  simp only
  split
  · exact notices_fail
  · split
    · exact notices_fail
    · rfl
    · exact notices_confirm

theorem notices_expireAll : (h.expireAll cfg g).notices = h.notices := by
  obtain ⟨waits, heq⟩ := expireAll_eq cfg h g
  rw [heq]
  rfl

/-- The caller of a wait that claims a delivery is told only after its callback. -/
theorem notices_dispatch {deadline : Option Nat} {d : Delivery} :
    (h.dispatch cfg g deadline d).notices = h.notices := by
  rw [dispatch]
  simp only
  split
  · split <;> split <;> rfl
  · split <;> rfl

/-- A generation tells its callers nothing itself, not even that it has started. -/
theorem notices_stepGeneration? (hs : h.stepGeneration? cfg g = some h') :
    h'.notices = h.notices := by
  rw [stepGeneration?, Option.bind_eq_bind, Option.bind_eq_some_iff] at hs
  obtain ⟨x, hx, hs⟩ := hs
  split at hs
  · cases hs
    exact notices_subscribe
  · cases hs
    rfl
  · split at hs
    · cases hs
      exact notices_subscribe
    · cases hs
      exact notices_startFailed
    · split at hs
      · cases hs
        exact notices_startFailed
      · cases hs
  · split at hs
    · split at hs
      · cases hs
        exact notices_attach
      · cases hs
        exact notices_startFailed
    · split at hs
      · cases hs
        exact notices_startFailed
      · cases hs
  · simp only [route?, hx, Option.bind_eq_bind, Option.bind_some] at hs
    split at hs
    · cases hs
      exact notices_leave
    · split at hs
      · cases hs
        exact notices_leave.trans notices_expireAll
      · split at hs
        · cases hs
          exact notices_dispatch
        · split at hs
          · cases hs
          · cases hs
            exact notices_leave
  · cases hs

/-! Nor does a claim. -/

theorem notices_returnPermit : h.returnPermit.notices = h.notices := by
  rw [returnPermit]
  split <;> rfl

theorem notices_settle {tag : Nat} {settlement : Settlement} :
    (h.settle tag settlement).notices = h.notices := by
  obtain ⟨ledger, heq⟩ := settle_eq h tag settlement
  rw [heq]

/-- A failed callback is noted in the ledger, or rejected. -/
theorem notices_rejectFailed {tag : Nat} : (h.rejectFailed cfg tag).notices = h.notices := by
  rw [rejectFailed]
  split
  · obtain ⟨broker, heq⟩ := nack_eq cfg (h.settle tag .alreadyNacked) tag false
    split
    · next h₁ hn =>
      rw [hn] at heq
      rw [show h₁ = _ from heq]
      exact notices_settle
    · next h₁ e hn =>
      rw [hn] at heq
      rw [notices_fail, show h₁ = _ from heq]
      exact notices_settle
  · exact notices_settle

/-- To complete a wait is not to tell its caller. -/
theorem notices_conclude {x : Claim M} {result : Except Failure Unit} :
    (h.conclude cfg c x result).notices = h.notices := by
  unfold conclude
  rw [notices_returnPermit]
  cases result with
  | error failure => exact notices_rejectFailed
  | ok =>
    obtain ⟨broker, heq⟩ := ack_eq cfg h x.tag
    simp only
    split
    · next h₁ hn =>
      rw [hn] at heq
      change (h₁.settle x.tag .acked).notices = h.notices
      rw [notices_settle, show h₁ = _ from heq]
    · next h₁ e hn =>
      rw [hn] at heq
      change ((h₁.complete x.wait _).fail _).notices = h.notices
      rw [notices_fail, show h₁ = _ from heq]
      rfl

theorem notices_launch {x : Claim M} : (h.launch c x).notices = h.notices := by
  rw [launch]
  split
  · rfl
  · exact notices_returnPermit

theorem notices_stepClaim? (hs : h.stepClaim? cfg c = some h') : h'.notices = h.notices := by
  rw [stepClaim?, Option.bind_eq_bind, Option.bind_eq_some_iff] at hs
  obtain ⟨x, hx, hs⟩ := hs
  split at hs
  · cases hs
    rw [takePermit]
    split
    · exact notices_launch
    · rfl
  · cases hs
    exact notices_launch
  · cases hs
    exact notices_conclude
  · cases hs

theorem notices_performAct {x : Claim M} {actions : List Action} :
    (h.act c x actions).notices = h.notices := by
  obtain ⟨notes, heq, _⟩ := act_eq h c x actions
  rw [heq]
  rfl

/-- A callback notes what it does, and tells nobody. -/
theorem notices_stepCallback? (hs : h.stepCallback? c = some h') : h'.notices = h.notices := by
  rw [stepCallback?, Option.bind_eq_bind, Option.bind_eq_some_iff] at hs
  obtain ⟨x, hx, hs⟩ := hs
  split at hs
  · cases hs
    exact notices_performAct
  · split at hs
    · cases hs
      exact notices_performAct
    · cases hs
  · split at hs
    · cases hs
      exact notices_performAct
    · cases hs
  · cases hs

/-! Nor does anybody else. -/

theorem notices_publish {body : Body} : (h.publish body).1.notices = h.notices := by
  rw [publish]
  split <;> rfl

theorem notices_publishAll {bodies : List Body} :
    (h.publishAll bodies).1.notices = h.notices := by
  induction bodies generalizing h with
  | nil => rfl
  | cons body rest ih => exact ih.trans notices_publish

theorem notices_stopIfIdle : h.stopIfIdle.notices = h.notices := by
  rw [stopIfIdle]
  split <;> rfl

theorem notices_deregister : (h.deregister i).notices = h.notices := by
  rw [deregister]
  split
  · exact notices_stopIfIdle
  · rfl

/-- Whoever gives up is not told anything. -/
theorem notices_giveUp (hs : h.giveUp i = some h') : h'.notices = h.notices := by
  rw [giveUp, Option.bind_eq_bind, Option.bind_eq_some_iff] at hs
  obtain ⟨w, hw, hs⟩ := hs
  split at hs
  · cases hs
    exact notices_disposeIfUnowned
  · cases hs
    exact notices_disposeIfUnowned.trans notices_deregister
  · cases hs
    exact notices_deregister
  · cases hs
    exact notices_deregister
  · cases hs
    exact notices_deregister
  · cases hs
    exact notices_deregister
  · cases hs
    rfl
  · cases hs
  · cases hs

theorem notices_await (hs : h.await i = some h') : h'.notices = h.notices := by
  rw [await, Option.bind_eq_bind, Option.bind_eq_some_iff] at hs
  obtain ⟨w, hw, hs⟩ := hs
  split at hs
  · cases hs
    rfl
  · cases hs

theorem notices_handle {event : ConsumerEvent} :
    (h.handle cfg g event).notices = h.notices := by
  cases event with
  | received tag body => rfl
  | cancelled => exact notices_teardown
  | failed e => exact notices_fail

/-- Nobody is told anything by what comes from outside. -/
theorem notices_act {a : Act M} {reply : BrokerReply} (hact : h.act? cfg a = some (h', reply)) :
    h'.notices = h.notices := by
  cases a with
  | call description predicate =>
    rw [act?] at hact
    split at hact <;> cases hact
    rfl
  | await i =>
    obtain ⟨h₁, hs, heq⟩ := Option.map_eq_some_iff.1 hact
    cases heq
    exact notices_await hs
  | giveUp i =>
    obtain ⟨h₁, hs, heq⟩ := Option.map_eq_some_iff.1 hact
    cases heq
    exact notices_giveUp hs
  | publish body =>
    cases hact
    exact notices_publish
  | publishAll bodies =>
    cases hact
    exact notices_publishAll
  | release =>
    cases hact
    exact notices_confirmAll
  | failConnection reason =>
    cases hact
    exact notices_failAll
  | dispose =>
    rw [act?] at hact
    split at hact <;> cases hact
    exact notices_dispose
  | drop =>
    cases hact
    exact notices_disposeIfUnowned
  | notify consumer event =>
    obtain ⟨_, _, hact⟩ := Option.bind_eq_some_iff.1 hact
    obtain ⟨g, _, hact⟩ := Option.bind_eq_some_iff.1 hact
    obtain ⟨_, _, hact⟩ := Option.bind_eq_some_iff.1 hact
    cases hact
    exact notices_handle
  | openGate | hold | consumeBacklog | ack | nack | disposeBroker =>
    cases hact
    rfl

/-! A wait tells its own caller, one thing at a time. -/

theorem notices_register {w : Wait M} : (h.register i w).notices = h.notices ∨
    ∃ notice, (h.register i w).notices = h.notices ++ [(i, notice)] := by
  rw [register]
  cases h.failure with
  | some e => exact .inr ⟨_, notices_disposeIfUnowned⟩
  | none =>
    simp only
    split <;> exact .inl rfl

theorem notices_expire : (h.expire cfg i).notices = h.notices ∨
    ∃ notice, (h.expire cfg i).notices = h.notices ++ [(i, notice)] := by
  rw [expire]
  split
  · exact .inl rfl
  · exact .inr ⟨_, congrArg (· ++ [_]) notices_stopIfIdle⟩

/-- Only the step of a wait tells its caller that it has its wait, or how it has ended. -/
theorem notices_stepWait? (hs : h.stepWait? cfg i = some h') : h'.notices = h.notices ∨
    ∃ notice, h'.notices = h.notices ++ [(i, notice)] := by
  rw [stepWait?, Option.bind_eq_bind, Option.bind_eq_some_iff] at hs
  obtain ⟨w, hw, hs⟩ := hs
  split at hs
  · cases hs
    exact notices_register
  · next g hstage =>
    obtain ⟨started, _, hs⟩ := Option.bind_eq_some_iff.1 hs
    cases started with
    | ok =>
      cases hs
      exact .inr ⟨_, notices_disposeIfUnowned⟩
    | error e =>
      cases hs
      refine .inr ⟨.result (.error e), notices_disposeIfUnowned.trans ?_⟩
      exact congrArg (· ++ [_]) notices_deregister
  · cases hs
    exact .inl rfl
  · split at hs
    · cases hs
      exact .inr ⟨_, rfl⟩
    · split at hs
      · cases hs
        exact notices_expire
      · cases hs
  · obtain ⟨outcome, _, rfl⟩ := Option.map_eq_some_iff.1 hs
    exact .inr ⟨_, rfl⟩
  · cases hs

/-- A move tells nobody anything, or it is the step of a wait and tells its caller one thing. -/
theorem Moves.notices (hm : Moves cfg allowed h h') : h'.notices = h.notices ∨
    ∃ i notice, h.stepWait? cfg i = some h' ∧ h'.notices = h.notices ++ [(i, notice)] := by
  cases hm with
  | act a _ hact => exact .inl (notices_act hact)
  | tick => exact .inl rfl
  | step t hs =>
    cases t with
    | wait i =>
      exact (notices_stepWait? hs).imp_right fun ⟨notice, heq⟩ => ⟨i, notice, hs, heq⟩
    | generation g => exact .inl (notices_stepGeneration? hs)
    | claim c => exact .inl (notices_stepClaim? hs)
    | callback c => exact .inl (notices_stepCallback? hs)

/-! Runs. -/

theorem mem_told : notice ∈ h.told i ↔ (i, notice) ∈ h.notices := by
  simp [told]

theorem Run.notices_succ (hr : Run cfg allowed s) (n : Nat) : (s (n + 1)).notices = (s n).notices ∨
    ∃ i notice, (s n).stepWait? cfg i = some (s (n + 1)) ∧
      (s (n + 1)).notices = (s n).notices ++ [(i, notice)] := by
  rcases hr.next n with heq | hm
  · rw [heq]
    exact .inl rfl
  · exact hm.notices

/-- What a caller was told is not taken back. -/
theorem Run.told_of_le (hr : Run cfg allowed s) (hle : m ≤ n) (ht : notice ∈ (s m).told i) :
    notice ∈ (s n).told i := by
  induction n, hle using Nat.le_induction with
  | base => exact ht
  | succ n _ ih =>
    rw [mem_told] at ih ⊢
    rcases hr.notices_succ n with heq | ⟨j, notice', _, heq⟩
    · rw [heq]
      exact ih
    · rw [heq]
      exact List.mem_append_left _ ih

end Intercept.Harness
