import Intercept.Proofs.Harness.Courses

/-! What ends a harness for good: a call to the broker fails, a consumer takes too long, the broker
reports a failure, or it confirms a cancel that nobody asked for. -/
namespace Intercept.Harness
variable {M : Type} {cfg : Setup M} {h h' h₁ : Harness M} {c g k : Nat} {e : HarnessError}
  {b : BrokerError} {x : Generation}

/-- The request of a generation for a subscription fails. -/
inductive Unattached (cfg : Setup M) (h : Harness M) (g : Nat) : BrokerError → Prop
  | refused (x : Generation) (b : BrokerError) : h.generations[g]? = some x → h.Admitted x →
    x.life.stopRequested ≠ true → cfg.connection.start h.subscriptions.length = .refused b →
    Unattached cfg h g b
  /-- The channel was released before the broker saw the request. -/
  | prompt (x : Generation) : h.generations[g]? = some x → h.Admitted x →
    x.life.stopRequested ≠ true → cfg.connection.start h.subscriptions.length = .prompt →
    h.broker.disposed = true → Unattached cfg h g .closed
  | delayed (x : Generation) (answerAt deadline : Nat) : h.generations[g]? = some x →
    x.stage = .subscribing answerAt deadline none → answerAt ≤ h.clock →
    h.broker.disposed = true → Unattached cfg h g .closed
  /-- The answer is an error. -/
  | refusedLate (x : Generation) (answerAt deadline : Nat) (b : BrokerError) :
    h.generations[g]? = some x → x.stage = .subscribing answerAt deadline (some b) →
    answerAt ≤ h.clock → Unattached cfg h g b

/-- A generation goes on to cancel its subscription, after all waiters have failed perhaps. -/
def Departs (cfg : Setup M) (h : Harness M) (g : Nat) (h₁ : Harness M) : Prop :=
  (h₁ = h ∨ h₁ = h.expireAll cfg g) ∧ h.step? cfg (.generation g) = some (h₁.leave cfg g)

/-- The tag of a generation's consumer. -/
def consumerOf (h : Harness M) (g : Nat) : String := (h.generations[g]?.map (·.consumer)).getD ""

/-- The cancel of a generation's consumer is confirmed in a move, or it never subscribed. This is how
the harness stands as the ledger pass is due. -/
inductive Confirms (cfg : Setup M) (h : Harness M) : Nat → Harness M → Harness M → Prop
  /-- The generation was stopped before it subscribed. -/
  | abandoned (g : Nat) (x : Generation) : h.generations[g]? = some x → h.Admitted x →
    x.life.stopRequested = true →
    Confirms cfg h g (h.enter g .ended) ((h.enter g .ended).teardown cfg g)
  | left (g : Nat) (h₁ : Harness M) (broker : Broker Nat) (c : Consumer Nat) : h.Departs cfg g h₁ →
    cfg.connection.cancel h₁.cancelCalls = none →
    h₁.broker.cancel (h₁.consumerOf g) = (broker, .ok (some c)) →
    Confirms cfg h c.sink { h₁.enter g .ended with cancelCalls := h₁.cancelCalls + 1, broker }
      (h₁.leave cfg g)
  /-- Cancels were held back, and are confirmed one after the other. -/
  | released (before after : List (Consumer Nat)) (c : Consumer Nat) :
    h.broker.held = before ++ c :: after →
    Confirms cfg h c.sink (before.foldl (·.confirm cfg ·) { h with broker := h.broker.release.1 })
      (h.broker.held.foldl (·.confirm cfg ·) { h with broker := h.broker.release.1 })
  | notified (g : Nat) : Confirms cfg h g h (h.handle cfg g .cancelled)

/-- What ends the harness for good in a move, with what error. -/
inductive Fault (cfg : Setup M) (h : Harness M) : HarnessError → Harness M → Prop
  | unattached {h' : Harness M} (g : Nat) (b : BrokerError) : h.Unattached cfg g b →
    h.step? cfg (.generation g) = some h' → Fault cfg h (.transport b) h'
  /-- The broker does not answer the request for a subscription in time. -/
  | unanswered {h' : Harness M} (g : Nat) (x : Generation) (answerAt deadline : Nat)
    (answer : Option BrokerError) : h.generations[g]? = some x →
    x.stage = .subscribing answerAt deadline answer → h.clock < answerAt →
    deadline ≤ h.clock → h.step? cfg (.generation g) = some h' →
    Fault cfg h (.generation ("timeout waiting for consumer to start after " ++ cfg.timeoutText)) h'
  /-- The generation before does not hand its messages back in time. -/
  | unfinished {h' : Harness M} (g : Nat) (x : Generation) (previous deadline : Nat) :
    h.generations[g]? = some x → x.stage = .waiting previous deadline →
    (h.life previous).fullyStopped = .pending → deadline ≤ h.clock →
    h.step? cfg (.generation g) = some h' → Fault cfg h (.generation
      ("timeout waiting for previous consumer to complete after " ++ cfg.timeoutText)) h'
  /-- The acknowledgement of a delivery fails. -/
  | unacked {h' : Harness M} (c : Nat) (x : Claim M) (b : BrokerError) : h.claims[c]? = some x →
    x.stage = .running (.returned (.ok ())) → (h.ack cfg x.tag).2 = .error b →
    h.step? cfg (.claim c) = some h' → Fault cfg h (.transport b) h'
  /-- The reject of a delivery whose callback has failed fails. -/
  | unrejected {h' : Harness M} (c : Nat) (x : Claim M) (failure : Failure) (b : BrokerError) :
    h.claims[c]? = some x → x.stage = .running (.returned (.error failure)) → h.Over →
    (h.nack cfg x.tag false).2 = .error b → h.step? cfg (.claim c) = some h' →
    Fault cfg h (.transport b) h'
  /-- A reject of a ledger pass fails. -/
  | unissued {h' : Harness M} (g : Nat) (h₁ : Harness M) (b : BrokerError) :
    h.Confirms cfg g h₁ h' → h₁.failure = none →
    (h₁.life g).state ≠ .initial → (h₁.life g).state ≠ .started →
    (h₁.nackAll cfg h₁.ledger.plan.rejects).2 = .error b → Fault cfg h (.transport b) h'
  /-- Nobody asked for the cancel. -/
  | unasked {h' : Harness M} (g : Nat) (h₁ : Harness M) : h.Confirms cfg g h₁ h' →
    h₁.failure = none → (h₁.life g).state = .initial ∨ (h₁.life g).state = .started →
    Fault cfg h (Lifecycle.cancelledByBroker (h₁.consumerOf g) (h₁.life g).state) h'
  /-- The cancel fails. -/
  | uncancelled (g : Nat) (h₁ : Harness M) (b : BrokerError) : h.Departs cfg g h₁ →
    cfg.connection.cancel h₁.cancelCalls = some b ∨ cfg.connection.cancel h₁.cancelCalls = none ∧
      (h₁.broker.cancel (h₁.consumerOf g)).2 = .error b →
    Fault cfg h (.transport b) (h₁.leave cfg g)
  /-- The connection fails while a consumer is attached. -/
  | disconnected {h' : Harness M} {reply : BrokerReply} (reason : String) :
    h.broker.consumers ≠ [] → h.act? cfg (.failConnection reason) = some (h', reply) →
    Fault cfg h (.transport (.connection reason)) h'
  | notified {h' : Harness M} {reply : BrokerReply} (consumer : Nat) (b : BrokerError) :
    h.act? cfg (.notify consumer (.failed b)) = some (h', reply) → Fault cfg h (.transport b) h'

theorem failure_fail_self (hf : h.failure = none) : (h.fail e).failure = some e := by
  rw [fail_eq hf]

theorem failure_failGeneration_self (hf : h.failure = none) :
    (h.failGeneration g e).failure = some e :=
  failure_fail_self (h := h.changeLife g (·.setException e)) hf

/-- Whoever has failed does not notice further business. -/
theorem Business.failure_of_some (hb : h.Business h') (hf : h.failure = some e) :
    h'.failure = some e := by
  cases hb with
  | calm hc => exact hc.failure.trans hf
  | failed _ _ hnone _ _ _ | blamed _ _ _ hnone _ _ _ =>
    rw [hf] at hnone
    cases hnone

theorem step_of_admitted (hx : h.generations[g]? = some x) (ha : h.Admitted x) :
    h.step? cfg (.generation g) = some (h.subscribe cfg g) := by
  rw [step?, stepGeneration?, hx, Option.bind_eq_bind, Option.bind_some]
  rcases ha with hs | ⟨previous, deadline, hs, hdone⟩
  · rw [hs]
  · rw [hs]
    simp only [show (h.life previous).fullyStopped = .resolved (.ok ()) from hdone,
      OneShot.get?_resolved]

theorem failure_attach (hf : h.failure = none) (hd : h.broker.disposed = true) :
    (h.attach cfg g).failure = some (.transport .closed) := by
  rw [attach, Broker.start, Broker.onOpen, hd, if_pos rfl]
  exact failure_failGeneration_self (h := h.enter g .ended) hf

theorem Unattached.failure (hu : h.Unattached cfg g b) (hs : h.step? cfg (.generation g) = some h')
    (hf : h.failure = none) : h'.failure = some (.transport b) := by
  have hlife : ∀ {x : Generation}, h.generations[g]? = some x → x.life.stopRequested ≠ true →
      ¬ (h.life g).stopRequested = true := fun hx hgoing => by
    rwa [life_of_some (lives_of_some hx)]
  cases hu with
  | refused x b hx ha hgoing hr =>
    rw [step_of_admitted hx ha, Option.some_inj] at hs
    subst hs
    rw [subscribe, if_neg (hlife hx hgoing)]
    simp only [hr]
    exact failure_failGeneration_self hf
  | prompt x hx ha hgoing hr hd =>
    rw [step_of_admitted hx ha, Option.some_inj] at hs
    subst hs
    rw [subscribe, if_neg (hlife hx hgoing)]
    simp only [hr]
    exact failure_attach hf hd
  | delayed x answerAt deadline hx hst hdue hd =>
    rw [step?, stepGeneration?, hx, Option.bind_eq_bind, Option.bind_some, hst] at hs
    simp only [if_pos hdue, Option.some_inj] at hs
    subst hs
    exact failure_attach hf hd
  | refusedLate x answerAt deadline b hx hst hdue =>
    rw [step?, stepGeneration?, hx, Option.bind_eq_bind, Option.bind_some, hst] at hs
    simp only [if_pos hdue, Option.some_inj] at hs
    subst hs
    exact failure_failGeneration_self (h := h.enter g .ended) hf

/-! A ledger pass. -/

theorem nackAll_congr {rejects : List (Nat × Bool)} (hb : h'.broker = h.broker) :
    (h'.nackAll cfg rejects).2 = (h.nackAll cfg rejects).2 := by
  induction rejects generalizing h h' with
  | nil => rfl
  | cons r rest ih =>
    have hone : (h'.nack cfg r.1 r.2).1.broker = (h.nack cfg r.1 r.2).1.broker ∧
        (h'.nack cfg r.1 r.2).2 = (h.nack cfg r.1 r.2).2 := by
      rw [nack, nack, hb]
      split <;> exact ⟨by first | rfl | exact hb, rfl⟩
    rw [nackAll, nackAll]
    cases hr : h.nack cfg r.1 r.2 with
    | mk h₁ result =>
      cases hr' : h'.nack cfg r.1 r.2 with
      | mk h₁' result' =>
        rw [hr, hr'] at hone
        obtain ⟨hbroker, rfl⟩ := hone
        cases result' with
        | ok => exact ih hbroker
        | error e => rfl

theorem failure_teardown_unasked (hf : h.failure = none)
    (hs : (h.life g).state = .initial ∨ (h.life g).state = .started) :
    (h.teardown cfg g).failure =
      some (Lifecycle.cancelledByBroker (h.consumerOf g) (h.life g).state) := by
  have hviolation : (h.life g).setComplete (h.consumerOf g) =
      ((h.life g).setException (Lifecycle.cancelledByBroker (h.consumerOf g) (h.life g).state),
        .error (Lifecycle.cancelledByBroker (h.consumerOf g) (h.life g).state)) := by
    rcases hs with hs | hs <;> rw [Lifecycle.setComplete, hs] <;> rfl
  rw [teardown, ← consumerOf, hviolation]
  exact failure_fail_self hf

theorem failure_teardown_unissued (hf : h.failure = none) (hi : (h.life g).state ≠ .initial)
    (hs : (h.life g).state ≠ .started)
    (hn : (h.nackAll cfg h.ledger.plan.rejects).2 = .error b) :
    (h.teardown cfg g).failure = some (.transport b) := by
  obtain ⟨life, hcomplete⟩ : ∃ life, (h.life g).setComplete (h.consumerOf g) = (life, .ok ()) := by
    rw [Lifecycle.setComplete]
    cases hst : (h.life g).state with
    | initial => exact (hi hst).elim
    | started => exact (hs hst).elim
    | stopped | complete | errored => exact ⟨_, rfl⟩
  let h₁ : Harness M := { h.changeLife g fun _ => life with ledger := h.ledger.teardown.2 }
  have hsame : (h₁.nackAll cfg h.ledger.plan.rejects).2 = .error b :=
    (nackAll_congr (h := h) (show h₁.broker = h.broker from rfl)).trans hn
  obtain ⟨broker, heq⟩ := nackAll_eq cfg h₁ h.ledger.plan.rejects
  rw [teardown, ← consumerOf, hcomplete]
  simp only
  split
  · next h₂ hr =>
    have hok : (h₁.nackAll cfg h.ledger.plan.rejects).2 = .ok () := congrArg Prod.snd hr
    rw [hok] at hsame
    cases hsame
  · next h₂ e hr =>
    have herror : (h₁.nackAll cfg h.ledger.plan.rejects).2 = .error e := congrArg Prod.snd hr
    rw [herror] at hsame
    cases hsame
    refine failure_failGeneration_self ?_
    rw [show h₂ = _ from (congrArg Prod.fst hr).symm.trans heq]
    exact hf

/-- A fault of the ledger pass is the fault of the move. -/
theorem Confirms.failure (hc : h.Confirms cfg g h₁ h')
    (hf : (h₁.teardown cfg g).failure = some e) : h'.failure = some e := by
  cases hc with
  | abandoned g x _ _ _ => exact hf
  | left g h₀ broker c hd hcancel hb =>
    have hleave : h₀.leave cfg g = ({ h₀.enter g .ended with
        cancelCalls := h₀.cancelCalls + 1, broker } : Harness M).confirm cfg c := by
      rw [leave, ← consumerOf]
      simp only [hcancel]
      rw [show (h₀.enter g .ended).broker = h₀.broker from rfl, hb]
    rw [hleave]
    exact hf
  | released before after c hheld =>
    rw [hheld, List.foldl_append, List.foldl_cons]
    exact business_confirmAll.failure_of_some hf
  | notified g => exact hf

theorem failure_leave (hf : h.failure = none)
    (hc : cfg.connection.cancel h.cancelCalls = some b ∨
      cfg.connection.cancel h.cancelCalls = none ∧ (h.broker.cancel (h.consumerOf g)).2 = .error b) :
    (h.leave cfg g).failure = some (.transport b) := by
  rw [leave, ← consumerOf]
  rcases hc with hc | ⟨hc, hb⟩
  · simp only [hc]
    exact failure_fail_self hf
  · simp only [hc]
    rw [show (h.enter g .ended).broker = h.broker from rfl]
    cases hr : h.broker.cancel (h.consumerOf g) with
    | mk broker result =>
      rw [hr] at hb
      obtain rfl : result = .error b := hb
      exact failure_fail_self hf

/-! A claim. -/

theorem failure_conclude_unacked {x : Claim M} (hf : h.failure = none)
    (hack : (h.ack cfg x.tag).2 = .error b) :
    (h.conclude cfg c x (.ok ())).failure = some (.transport b) := by
  obtain ⟨broker, heq⟩ := ack_eq cfg h x.tag
  unfold conclude
  cases hr : h.ack cfg x.tag with
  | mk h₁ answer =>
    rw [hr] at hack heq
    obtain rfl : answer = .error b := hack
    obtain rfl : h₁ = { h with broker } := heq
    exact calm_returnPermit.failure.trans (failure_fail_self (h := ({ h with broker } :
      Harness M).complete x.wait (.error (.transport b))) hf)

theorem failure_conclude_unrejected {x : Claim M} {failure : Failure} (hf : h.failure = none)
    (hover : h.Over) (hnack : (h.nack cfg x.tag false).2 = .error b) :
    (h.conclude cfg c x (.error failure)).failure = some (.transport b) := by
  obtain ⟨ledger, hsettled⟩ := settle_eq h x.tag .alreadyNacked
  obtain ⟨broker, heq⟩ := nack_eq cfg ({ h with ledger } : Harness M) x.tag false
  have hsame : (({ h with ledger } : Harness M).nack cfg x.tag false).2 = .error b := by
    rw [← hnack, nack, nack]
    split <;> rfl
  have hrejected : (h.rejectFailed cfg x.tag).failure = some (.transport b) := by
    rw [Over] at hover
    rw [rejectFailed, if_pos hover, hsettled]
    cases hr : ({ h with ledger } : Harness M).nack cfg x.tag false with
    | mk h₁ answer =>
      rw [hr] at hsame heq
      obtain rfl : answer = .error b := hsame
      obtain rfl : h₁ = { h with ledger, broker } := heq
      exact failure_fail_self hf
  exact calm_returnPermit.failure.trans hrejected

/-- What ends the harness for good is its failure from then on. -/
theorem Fault.failure (hfault : h.Fault cfg e h') (hf : h.failure = none) : h'.failure = some e := by
  cases hfault with
  | unattached g b hu hs => exact hu.failure hs hf
  | unanswered g x answerAt deadline answer hx hst hearly hdue hs =>
    rw [step?, stepGeneration?, hx, Option.bind_eq_bind, Option.bind_some, hst] at hs
    simp only [if_neg (Nat.not_le.2 hearly), if_pos hdue, Option.some_inj] at hs
    subst hs
    exact failure_failGeneration_self (h := h.enter g .ended) hf
  | unfinished g x previous deadline hx hst hpending hdue hs =>
    rw [step?, stepGeneration?, hx, Option.bind_eq_bind, Option.bind_some, hst] at hs
    simp only [hpending, OneShot.get?_pending, if_pos hdue, Option.some_inj] at hs
    subst hs
    exact failure_failGeneration_self (h := h.enter g .ended) hf
  | unacked c x b hx hst hack hs =>
    rw [step?, stepClaim?, hx, Option.bind_eq_bind, Option.bind_some, hst, Option.some_inj] at hs
    subst hs
    exact failure_conclude_unacked hf hack
  | unrejected c x failure b hx hst hover hnack hs =>
    rw [step?, stepClaim?, hx, Option.bind_eq_bind, Option.bind_some, hst, Option.some_inj] at hs
    subst hs
    exact failure_conclude_unrejected hf hover hnack
  | unissued g h₁ b hc hf₁ hi hst hn => exact hc.failure (failure_teardown_unissued hf₁ hi hst hn)
  | unasked g h₁ hc hf₁ hst => exact hc.failure (failure_teardown_unasked hf₁ hst)
  | uncancelled g h₁ b hd hc =>
    refine failure_leave ?_ hc
    rcases hd.1 with rfl | rfl
    · exact hf
    · exact failure_expireAll.trans hf
  | disconnected reason hattached hact =>
    cases hact
    obtain ⟨_, rest, hcons⟩ := List.exists_cons_of_ne_nil hattached
    rw [hcons, List.foldl_cons]
    exact (business_failAll rfl).failure_of_some (failure_fail_self hf)
  | notified consumer b hact =>
    obtain ⟨_, _, hact⟩ := Option.bind_eq_some_iff.1 hact
    obtain ⟨g, _, hact⟩ := Option.bind_eq_some_iff.1 hact
    obtain ⟨_, _, hact⟩ := Option.bind_eq_some_iff.1 hact
    cases hact
    exact failure_fail_self hf

theorem Fault.ne_disposed (hfault : h.Fault cfg e h') : e ≠ .disposed := by
  cases hfault <;> exact HarnessError.noConfusion

end Intercept.Harness
