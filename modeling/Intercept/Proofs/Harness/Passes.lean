import Intercept.Proofs.Harness.Tidy

/-! Ledger passes: how a generation hands its messages back, and what that does to the books. -/
namespace Intercept
variable {M : Type}

/-- The rejects of a plan as a broker records them. -/
def RejectPlan.operations (p : RejectPlan) : List Operation :=
  p.rejects.map fun r => .nack r.1 r.2

/-- Whether an operation asks for a subscription. -/
def Operation.isStart : Operation → Bool
  | start .. => true
  | _ => false

theorem Lifecycle.setComplete_of_stopped {l : Lifecycle} {consumer : String}
    (h : l.state.isObserving = false) : ∃ l', l.setComplete consumer = (l', .ok ()) := by
  obtain ⟨state, stopRequested, started, fullyStopped⟩ := l
  cases state <;> first | exact ⟨_, rfl⟩ | cases h

/-- A reject that is taken is recorded, and what was rejected stays rejected. -/
theorem Broker.nack_log {κ : Type} (b : Broker κ) (tag : Nat) (multiple : Bool) :
    (∃ tail, (b.nack tag multiple).1.operations = b.operations ++ tail ∧
      (∀ op ∈ tail, op = .nack tag multiple) ∧
      ((b.nack tag multiple).2 = .ok () → tail = [.nack tag multiple])) ∧
    ∀ t ∈ b.nacked, t ∈ (b.nack tag multiple).1.nacked := by
  rw [nack, onOpen]
  split
  · exact ⟨⟨[], (List.append_nil _).symm, by simp, by simp⟩, fun _ ht => ht⟩
  · split
    · exact ⟨⟨[_], rfl, fun _ => List.mem_singleton.1, fun _ => rfl⟩,
        fun t ht => List.mem_append_left _ ht⟩
    · exact ⟨⟨[_], rfl, fun _ => List.mem_singleton.1, by simp⟩, fun _ ht => ht⟩

namespace Harness
variable {cfg : Setup M} {loud : Prop} {h h' h₁ : Harness M} {g : Nat} {x : Generation}
  {e : HarnessError} {before after : List Operation}

theorem nackAll_log (cfg : Setup M) (h : Harness M) (rejects : List (Nat × Bool)) :
    (∃ tail, (h.nackAll cfg rejects).1.broker.operations = h.broker.operations ++ tail ∧
      (∀ op ∈ tail, ∃ r ∈ rejects, op = .nack r.1 r.2) ∧
      ((h.nackAll cfg rejects).2 = .ok () → tail = rejects.map fun r => .nack r.1 r.2)) ∧
    ∀ t ∈ h.broker.nacked, t ∈ (h.nackAll cfg rejects).1.broker.nacked := by
  induction rejects generalizing h with
  | nil => exact ⟨⟨[], (List.append_nil _).symm, by simp, fun _ => rfl⟩, fun _ ht => ht⟩
  | cons r rest ih =>
    obtain ⟨tag, multiple⟩ := r
    rw [nackAll, nack]
    cases cfg.connection.nack tag with
    | some e => exact ⟨⟨[], (List.append_nil _).symm, by simp, by simp⟩, fun _ ht => ht⟩
    | none =>
      obtain ⟨⟨tail, hlog, htail, hok⟩, hkept⟩ := h.broker.nack_log tag multiple
      cases hb : h.broker.nack tag multiple with
      | mk broker result =>
        rw [hb] at hlog hok hkept
        cases result with
        | error e =>
          refine ⟨⟨tail, hlog, fun op hop => ?_, by simp⟩, hkept⟩
          exact ⟨(tag, multiple), List.mem_cons_self .., htail op hop⟩
        | ok =>
          obtain ⟨⟨tail', hlog', htail', hok'⟩, hkept'⟩ := ih { h with broker }
          refine ⟨⟨tail ++ tail', ?_, fun op hop => ?_, fun hresult => ?_⟩,
            fun t ht => hkept' t (hkept t ht)⟩
          · change (({ h with broker } : Harness M).nackAll cfg rest).1.broker.operations = _
            rw [hlog', ← List.append_assoc, ← hlog]
          · rcases List.mem_append.1 hop with hop | hop
            · exact ⟨(tag, multiple), List.mem_cons_self .., htail op hop⟩
            · obtain ⟨r, hr, heq⟩ := htail' op hop
              exact ⟨r, List.mem_cons_of_mem _ hr, heq⟩
          · rw [hok rfl, hok' hresult]
            rfl

theorem failure_fail (h : Harness M) (e : HarnessError) : (h.fail e).failure ≠ none := by
  rw [fail]
  cases hf : h.failure with
  | some e' => simp [hf]
  | none =>
    simp only
    cases h.current with
    | none =>
      obtain ⟨waits, heq⟩ := shutDown_eq ({ h with failure := some e, current := none } :
        Harness M) (.error e)
      simp [heq]
    | some g =>
      obtain ⟨waits, heq⟩ := shutDown_eq ({ h.changeLife g (·.setException e) with
        failure := some e, current := none } : Harness M) (.error e)
      simp [heq]

/-! What a pass is. -/

/-- A generation need not wait for the one before it any more. -/
def Admitted (h : Harness M) (x : Generation) : Prop :=
  x.stage = .created none ∨
    ∃ previous deadline, x.stage = .waiting previous deadline ∧ h.Completed previous

/-- The ledger pass of a generation. -/
inductive Passes (cfg : Setup M) (h : Harness M) (g : Nat) : Harness M → Prop
  /-- The generation was stopped before it subscribed. -/
  | abandoned (x : Generation) : h.generations[g]? = some x → h.Admitted x →
    x.life.stopRequested = true → Passes cfg h g ((h.enter g .ended).teardown cfg g)
  /-- Its cancel is confirmed at once. -/
  | left (h₁ : Harness M) (x : Generation) (deadline : Option Nat) (c : Consumer Nat) :
    h₁ = h ∨ h₁ = h.expireAll cfg g → h₁.generations[g]? = some x → x.stage = .routing deadline →
    x.life.state = .stopped → h.broker.consumers = [c] → c.sink = g →
    Passes cfg h g
      ((h₁.cancelled g { h.broker.record (.cancel c.tag) with consumers := [] }).confirm cfg c)
  /-- Its cancel was held back, and is confirmed now. -/
  | released (c : Consumer Nat) : h.broker.held = [c] → c.sink = g →
    Passes cfg h g (({ h with broker := h.broker.release.1 } : Harness M).confirm cfg c)

/-- What a pass does to the books. Its rejects are recorded between other operations. -/
structure Passed (h : Harness M) (g : Nat) (before after : List Operation) (h' : Harness M) :
    Prop where
  ledger : h'.ledger = h.ledger.teardown.2
  lastTag : h'.broker.lastTag = h.broker.lastTag
  acked : h'.broker.acked = h.broker.acked
  nacked : ∀ t ∈ h.broker.nacked, t ∈ h'.broker.nacked
  subjects : h'.subjects = h.subjects
  inbound : ∀ k, h'.inbound k = h.inbound k
  completed : ∀ k, k ≠ g → (h'.Completed k ↔ h.Completed k)
  gone : h'.Gone g
  spared : ∀ t ∈ h.ledger.processing, t ∈ h.broker.tags → t ∈ h'.broker.tags
  log : ∃ tail, h'.broker.operations = h.broker.operations ++ tail ∧
    (∀ op ∈ tail, op.isStart = false ∧
      ∀ t m, op = .nack t m → (t, m) ∈ h.ledger.plan.rejects) ∧
    (h'.failure = none → tail = before ++ h.ledger.plan.operations ++ after)
  unfailed : h'.failure = none → h.failure = none ∧ h'.Completed g ∧
    h'.broker.consumers = [] ∧ h'.broker.held = [] ∧
    ∀ t ∈ h.broker.tags, h.ledger.Due t → t ∈ h'.broker.nacked

theorem Passed.of_tidy {first : List Operation} (before : List Operation)
    (hp : h₁.Passed g first after h') (ht : h.Tidy h₁)
    (hf : h₁.failure = none → h.failure = none)
    (hlog : h₁.broker.operations = h.broker.operations ++ before)
    (hbefore : ∀ op ∈ before, op.isStart = false ∧ ∀ t m, op ≠ .nack t m) :
    h.Passed g (before ++ first) after h' := by
  obtain ⟨tail, htail, hops, hall⟩ := hp.log
  refine ⟨?_, hp.lastTag.trans ht.lastTag, hp.acked.trans ht.acked, ?_,
    hp.subjects.trans ht.subjects,
    fun k => (hp.inbound k).trans (ht.inbound k),
    fun k hk => (hp.completed k hk).trans (ht.completed k), hp.gone, ?_,
    ⟨before ++ tail, ?_, ?_, ?_⟩, ?_⟩
  · rw [hp.ledger, ht.ledger]
  · rw [← ht.nacked]
    exact hp.nacked
  · rw [← ht.ledger, ← ht.tags]
    exact hp.spared
  · rw [htail, hlog, List.append_assoc]
  · intro op hop
    rcases List.mem_append.1 hop with hop | hop
    · exact ⟨(hbefore op hop).1, fun t m heq => ((hbefore op hop).2 t m heq).elim⟩
    · rw [← ht.ledger]
      exact hops op hop
  · intro hnone
    rw [hall hnone, ht.ledger]
    simp only [List.append_assoc]
  · intro hnone
    obtain ⟨hf₁, hrest⟩ := hp.unfailed hnone
    rw [← ht.tags, ← ht.ledger]
    exact ⟨hf hf₁, hrest⟩

/-- The confirmation is recorded. -/
theorem Passed.confirmed {consumer : String} (hp : h.Passed g [] [] h') :
    h.Passed g [] [.cancelConfirmed consumer]
      { h' with broker := h'.broker.confirmCancel consumer } := by
  obtain ⟨tail, htail, hops, hall⟩ := hp.log
  refine { hp with log := ⟨tail ++ [.cancelConfirmed consumer], ?_, ?_, ?_⟩ }
  · change h'.broker.operations ++ [.cancelConfirmed consumer] = _
    rw [htail, List.append_assoc]
  · intro op hop
    rcases List.mem_append.1 hop with hop | hop
    · exact hops op hop
    · rw [List.mem_singleton.1 hop]
      exact ⟨rfl, nofun⟩
  · intro hnone
    rw [hall hnone, List.append_nil]

/-- A tag that is due, and no longer unsettled, has been rejected. -/
theorem nacked_of_settled {b b' : Broker Nat} {t : Nat} (hb : b.Balanced) (hb' : b'.Balanced)
    (hlast : b'.lastTag = b.lastTag) (hacked : b'.acked = b.acked) (ht : t ∈ b.tags)
    (ht' : t ∉ b'.tags) : t ∈ b'.nacked := by
  have hnot : t ∉ b.acked := by
    have hnodup := (List.nodup_append.1 hb.nodup).2.2
    exact fun hmem => hnodup t (List.mem_append_left _ hmem) t ht rfl
  have hmem : t ∈ b'.acked ++ b'.nacked ++ b'.tags := by
    rw [hb'.mem_iff, hlast, ← hb.mem_iff]
    exact List.mem_append_right _ ht
  rw [hacked, List.mem_append, List.mem_append] at hmem
  rcases hmem with (hmem | hmem) | hmem
  · exact (hnot hmem).elim
  · exact hmem
  · exact (ht' hmem).elim

theorem completed_changeLife_of_ne {φ : Lifecycle → Lifecycle} {k : Nat} (hk : k ≠ g) :
    (h.changeLife g φ).Completed k ↔ h.Completed k := by
  rw [Completed, life, changeLife, changeGeneration, List.getElem?_modify_ne _ _ (Ne.symm hk)]
  rfl

theorem completed_changeLife_self {φ : Lifecycle → Lifecycle} (hx : h.generations[g]? = some x) :
    (h.changeLife g φ).Completed g ↔ (φ x.life).fullyStopped = .resolved (.ok ()) := by
  rw [Completed, changeLife, life_of_some (lives_of_some (getElem?_changeGeneration hx))]

theorem inbound_changeLife {φ : Lifecycle → Lifecycle} {k : Nat} :
    (h.changeLife g φ).inbound k = h.inbound k := by
  simp only [inbound, changeLife, changeGeneration, List.getElem?_modify]
  cases h.generations[k]? with
  | none => rfl
  | some x =>
    by_cases hk : g = k
    · simp [hk]
    · simp [hk]

/-- The plan of a teardown is carried out, at most up to a reject that fails. After a failure of the
harness nothing is settled. -/
theorem settles_plan {life : Lifecycle} {broker : Broker Nat} {result : Except BrokerError Unit}
    (hk : h.Kept) (hclosing : h.failure = none → h.Closing g)
    (hrun : ({ h.changeLife g fun _ => life with
      ledger := h.ledger.teardown.2 } : Harness M).nackAll cfg h.ledger.plan.rejects =
        ({ h.changeLife g fun _ => life with ledger := h.ledger.teardown.2, broker }, result)) :
    ∃ p, Broker.Settles h.ledger.plan.rejects p h.broker broker ∧
      (∀ t, p t → ∃ r ∈ h.ledger.plan.rejects, Broker.covers r.1 r.2 t = true) ∧
      (h.failure = none → result = .ok () →
        ∀ t, p t ↔ ∃ r ∈ h.ledger.plan.rejects, Broker.covers r.1 r.2 t = true) := by
  by_cases hf : h.failure = none
  · have hc := hclosing hf
    obtain ⟨broker', result', p, heq, hs, hsub, hp⟩ := @nackAll_accepted M
      { h.changeLife g fun _ => life with ledger := h.ledger.teardown.2 }
      h.ledger.plan.rejects cfg hc.active.running (hc.active.tracks.accepted hc.active.sound)
    rw [hrun] at heq
    obtain rfl : broker = broker' := congrArg (·.1.broker) heq
    obtain rfl : result = result' := congrArg (·.2) heq
    exact ⟨p, hs, hsub, fun _ => hp⟩
  · obtain ⟨result', heq⟩ := @nackAll_of_disposed M
      { h.changeLife g fun _ => life with ledger := h.ledger.teardown.2 } cfg (hk.disposed hf)
      h.ledger.plan.rejects
    rw [hrun] at heq
    obtain rfl : broker = h.broker := congrArg (·.1.broker) heq
    exact ⟨fun _ => False, Broker.settles_refl, nofun, fun hnone => (hf hnone).elim⟩

/-- A plan leaves alone what is being processed. -/
theorem spared_of_settles {b b' : Broker Nat} {l : Ledger} {rejects : List (Nat × Bool)}
    {p : Nat → Prop} (hl : l.Sound) (hs : Broker.Settles rejects p b b')
    (hsub : ∀ t, p t → ∃ r ∈ l.plan.rejects, Broker.covers r.1 r.2 t = true) :
    ∀ t ∈ l.processing, t ∈ b.tags → t ∈ b'.tags := by
  intro t ht htags
  refine (hs.tags t).2 ⟨htags, fun hpt => ?_⟩
  obtain ⟨r, hr, hcovers⟩ := hsub t hpt
  rw [hl.not_covered hr ht] at hcovers
  cases hcovers

/-- A stopped consumer that takes note of its cancel has handed its messages back. -/
theorem Attended.handsBack {life : Lifecycle} {consumer : String} (ha : h.Attended cfg)
    (hx : h.generations[g]? = some x) (hstopped : x.life.state = .stopped)
    (hc : (h.life g).setComplete consumer = (life, .ok ())) :
    life.signalStopped.fullyStopped = .resolved (.ok ()) := by
  have hlife : h.life g = x.life := life_of_some (lives_of_some hx)
  have hsignalled := (Lifecycle.onward_handBack hc).signalled
    (ha.signalled _ (hlife ▸ List.mem_of_getElem? (lives_of_some hx)))
  refine hsignalled.complete ?_
  obtain ⟨life', hc', hcomplete⟩ : ∃ l, (h.life g).setComplete consumer = (l, .ok ()) ∧
      l.state = .complete := Lifecycle.setComplete_stopped (hlife ▸ hstopped)
  rw [hc] at hc'
  cases hc'
  rw [Lifecycle.signalStopped_state]
  exact hcomplete

/-- A generation whose consumer is over, and that was asked to stop, runs its ledger pass. -/
theorem passed_teardown (ha : h.Attended cfg) (hk : h.Kept) (hgone : h.Gone g)
    (hobs : (h.life g).state.isObserving = false) (hclosing : h.failure = none → h.Closing g) :
    h.Passed g [] [] (h.teardown cfg g) := by
  have hgone' : (h.teardown cfg g).Gone g := ((deeds_teardown ha).grows ha).gone hgone
  obtain ⟨life, hc⟩ : ∃ life, (h.life g).setComplete
      ((h.generations[g]?.map (·.consumer)).getD "") = (life, .ok ()) :=
    Lifecycle.setComplete_of_stopped hobs
  obtain ⟨broker, result, hrun, hacked, hcases⟩ := teardown_cases cfg hc
  obtain ⟨⟨tail, hlog, htail, hall⟩, hnacked⟩ := nackAll_log cfg
    { h.changeLife g fun _ => life with ledger := h.ledger.teardown.2 } h.ledger.plan.rejects
  rw [hrun] at hlog hall hnacked
  obtain ⟨p, hs, hsub, hp⟩ := settles_plan hk hclosing hrun
  have hspared := spared_of_settles hk.books.sound hs hsub
  have hops : ∀ op ∈ tail, op.isStart = false ∧
      ∀ t m, op = .nack t m → (t, m) ∈ h.ledger.plan.rejects := by
    intro op hop
    obtain ⟨r, hr, rfl⟩ := htail op hop
    exact ⟨rfl, fun t m heq => by cases heq; exact hr⟩
  rcases hcases with ⟨rfl, heq⟩ | ⟨e, rfl, heq⟩
  · rw [heq] at hgone' ⊢
    refine ⟨rfl, hs.lastTag, hacked, hnacked, rfl, fun k => inbound_changeLife,
      fun k hk => completed_changeLife_of_ne hk, hgone', hspared, ⟨tail, hlog, hops, ?_⟩, ?_⟩
    · intro _
      rw [hall rfl, List.nil_append, List.append_nil]
      rfl
    · intro hf
      have hclosed := hclosing hf
      obtain ⟨x, hx, _, hstopped⟩ := hclosed.left
      have hbooks := hk.books
      have hback := ha.handsBack hx hstopped hc
      refine ⟨hf, (completed_changeLife_self (x := x) ?_).2 hback,
        hs.consumers.trans hclosed.consumers, hs.held.trans hclosed.held, fun t ht hdue => ?_⟩
      · exact hx
      have hcovered := due_covered hbooks.sound.previous_le hbooks.sound.processing_delivered
        hbooks.sound.shouldNack_pos hbooks.sound.shouldNack_apart hdue
      exact nacked_of_settled hbooks.balanced (hs.balanced hbooks.balanced) hs.lastTag hacked ht
        fun hmem => ((hs.tags t).1 hmem).2 ((hp hf rfl t).2 hcovered)
  · -- A reject failed, and the harness fails with it.
    have hbooked : Deed True h { h with broker, ledger := h.ledger.teardown.2 } :=
      deed_booked hacked
    obtain ⟨htidy, hsilent⟩ :=
      Deeds.tidy (ha.deed hbooked) (deeds_teardown_fails (e := e) (ha.deed hbooked) hc)
    have hfailed : (h.teardown cfg g).failure ≠ none := heq ▸ failure_fail _ _
    rw [← heq] at htidy hsilent
    obtain ⟨tail', hlog', htail'⟩ := hsilent.log
    refine ⟨htidy.ledger, htidy.lastTag.trans hs.lastTag, htidy.acked.trans hacked,
      htidy.nacked ▸ hnacked, htidy.subjects, htidy.inbound, fun k _ => htidy.completed k, hgone',
      htidy.tags ▸ hspared, ⟨tail ++ tail', ?_, ?_, fun hnone => (hfailed hnone).elim⟩,
      fun hnone => (hfailed hnone).elim⟩
    · rw [hlog']
      change broker.operations ++ tail' = _
      rw [hlog, List.append_assoc]
      rfl
    · intro op hop
      rcases List.mem_append.1 hop with hop | hop
      · exact hops op hop
      · rw [htail' op hop]
        exact ⟨rfl, nofun⟩

/-- The generation whose consumer is on its way out runs its ledger pass. -/
theorem Closing.passed (hc : h.Closing g) (ha : h.Attended cfg) (hk : h.Kept) :
    h.Passed g [] [] (h.teardown cfg g) := by
  obtain ⟨x, hx, hended, hstop⟩ := hc.left
  refine passed_teardown ha hk ⟨x, hx, hended⟩ ?_ fun _ => hc
  rw [life_of_some (lives_of_some hx), hstop]
  rfl

/-- The signal of a generation that was asked to stop. -/
theorem Paired.not_observing (hp : h.Paired) (hx : h.generations[g]? = some x)
    (hstop : x.life.stopRequested = true) : x.life.state.isObserving = false := by
  have hcons : x.life.stopRequested = !x.life.state.isObserving :=
    hp.consistent _ (List.mem_of_getElem? (lives_of_some hx))
  rw [hstop] at hcons
  cases hobs : x.life.state.isObserving with
  | false => rfl
  | true =>
    rw [hobs] at hcons
    cases hcons

/-- A pass is recorded as the rejects of the plan. The cancel of an attached consumer is recorded
before them, and its confirmation after them. -/
inductive Recorded (h : Harness M) (g : Nat) : List Operation → List Operation → Prop
  | abandoned : h.broker.consumers = [] → h.broker.held = [] → Recorded h g [] []
  | left (c : Consumer Nat) : h.broker.consumers = [c] → c.sink = g →
    Recorded h g [.cancel c.tag] [.cancelConfirmed c.tag]
  | released (c : Consumer Nat) : h.broker.held = [c] → c.sink = g →
    Recorded h g [] [.cancelConfirmed c.tag]

/-- Whoever is attached or has a cancel held back belongs to a harness that has not failed. -/
theorem Settled.unfailed_of_channel (hi : h.Settled)
    (hc : h.broker.consumers ≠ [] ∨ h.broker.held ≠ []) :
    h.failure = none ∧ h.broker.disposed = false := by
  have hd : h.broker.disposed = false := by
    apply Bool.eq_false_iff.2
    intro hd
    obtain ⟨_, hcons, hheld⟩ := hi.released hd
    exact hc.elim (fun hne => hne hcons) fun hne => hne hheld
  exact ⟨hi.toKept.unfailed hd, hd⟩

theorem Attended.cancelled {broker : Broker Nat} (ha : h.Attended cfg)
    (hacked : broker.acked = h.broker.acked) : (h.cancelled g broker).Attended cfg := by
  have hended : Deed True h (h.enter g .ended) := deed_end
  have hbooked : Deed True (h.enter g .ended) { h.enter g .ended with broker } :=
    deed_booked hacked
  have hquiet : Deed True { h.enter g .ended with broker } (h.cancelled g broker) := .quiet rfl
  exact ((ha.deed hended).deed hbooked).deed hquiet

theorem Tidy.cancelled {broker : Broker Nat} (ha : h.Attended cfg)
    (hb : (h.cancelled g broker).books = h.books) : h.Tidy (h.cancelled g broker) := by
  have hended : Deed False h (h.enter g .ended) := deed_end
  exact (hended.tidy ha).1.trans (.of_generations rfl hb rfl)

theorem passed_abandoned (ha : h.Attended cfg) (hi : h.Settled) (hp : h.Paired)
    (hl : h.failure = none → h.Live g) (hx : h.generations[g]? = some x)
    (hopening : x.stage.isOpening = true) (hstop : x.life.stopRequested = true) :
    h.Recorded g [] [] ∧ h.Passed g [] [] ((h.enter g .ended).teardown cfg g) := by
  have hended : Deed False h (h.enter g .ended) := deed_end
  have hx' : (h.enter g .ended).generations[g]? = some { x with stage := .ended } :=
    getElem?_changeGeneration hx
  have hobs : ((h.enter g .ended).life g).state.isObserving = false := by
    have hnot := hp.not_observing hx hstop
    rw [life_of_some (lives_of_some hx')]
    exact hnot
  have hpassed := passed_teardown (ha.deed hended) (hi.toKept.quiet rfl) ⟨_, hx', rfl⟩ hobs
    fun hf => (hl hf).abandoned hp hf hx hopening hstop
  have hempty : h.broker.consumers = [] ∧ h.broker.held = [] := by
    by_cases hf : h.failure = none
    · obtain ⟨_, hc, hh, _⟩ := (hl hf).front.of_opening hx hopening
      exact ⟨hc, hh⟩
    · exact (hi.released (hi.disposed hf)).2
  refine ⟨.abandoned hempty.1 hempty.2, hpassed.of_tidy [] (hended.tidy ha).1 id ?_ nofun⟩
  exact (List.append_nil _).symm

theorem passed_left {deadline : Option Nat} {c : Consumer Nat} (ha : h.Attended cfg) (hk : h.Kept)
    (hl : h.Live g) (hd : h.broker.disposed = false) (hx : h.generations[g]? = some x)
    (hst : x.stage = .routing deadline) (hstopped : x.life.state = .stopped) (hsink : c.sink = g) :
    h.Passed g [.cancel c.tag] [.cancelConfirmed c.tag]
      ((h.cancelled g { h.broker.record (.cancel c.tag) with consumers := [] }).confirm cfg c) := by
  have hclosing := hl.cancelled (c := c) hx hst hstopped
  have hcancelled : (h.cancelled g { h.broker.record (.cancel c.tag) with
      consumers := [] }).Attended cfg := ha.cancelled rfl
  have hpassed := hclosing.passed hcancelled (hk.cancelled hd)
  rw [confirm, hsink]
  refine hpassed.confirmed.of_tidy [.cancel c.tag] (.cancelled ha rfl) id rfl fun op hop => ?_
  rw [List.mem_singleton.1 hop]
  exact ⟨rfl, nofun⟩

theorem passed_released {c : Consumer Nat} (ha : h.Attended cfg) (hk : h.Kept) (hl : h.Live g)
    (hd : h.broker.disposed = false) (hheld : h.broker.held = [c]) :
    h.Passed g [] [.cancelConfirmed c.tag]
      (({ h with broker := h.broker.release.1 } : Harness M).confirm cfg c) := by
  have hs : h.broker.Still h.broker.release.1 := ⟨rfl, rfl, rfl, rfl, rfl, fun _ _ hmem => hmem⟩
  obtain ⟨hsink, hclosing⟩ := hl.released hheld hs rfl rfl rfl
  have hbooked : Deed True h { h with broker := h.broker.release.1 } := deed_booked rfl
  have hpassed := hclosing.passed (ha.deed hbooked) (hk.still hs rfl hd)
  rw [confirm, hsink]
  exact hpassed.confirmed.of_tidy [] (.of_generations rfl rfl rfl) id (List.append_nil _).symm nofun

/-- A generation leaves as it is, or once all waiters were told that their time is over. -/
theorem leaving (ha : h.Attended cfg) (hh₁ : h₁ = h ∨ h₁ = h.expireAll cfg g) :
    Deeds False h h₁ ∧ h₁.broker = h.broker ∧ (h.Kept → h₁.Kept) ∧ (h.Live g → h₁.Live g) := by
  rcases hh₁ with rfl | rfl
  · exact ⟨.refl, rfl, id, id⟩
  · refine ⟨deeds_expireAll ha, ?_, Kept.expireAll, Live.expireAll⟩
    obtain ⟨waits, heq⟩ := expireAll_eq cfg h g
    rw [heq]
    rfl

theorem Passes.passed (ha : h.Attended cfg) (hi : h.Settled) (hp : h.Paired)
    (hl : h.failure = none → h.Live g) (hpass : h.Passes cfg g h') :
    ∃ before after, h.Recorded g before after ∧ h.Passed g before after h' := by
  cases hpass with
  | abandoned x hx hadmitted hstop =>
    have hopening : x.stage.isOpening = true := by
      rcases hadmitted with hst | ⟨p, d, hst, _⟩ <;> rw [hst] <;> rfl
    exact ⟨[], [], passed_abandoned ha hi hp hl hx hopening hstop⟩
  | left h₁ x deadline c hh₁ hx hst hstopped hc hsink =>
    obtain ⟨hf, hd⟩ := hi.unfailed_of_channel (.inl (by simp [hc]))
    obtain ⟨hdeeds, hbroker, hkept, hlive⟩ := leaving ha hh₁
    refine ⟨[.cancel c.tag], [.cancelConfirmed c.tag], .left c hc hsink, ?_⟩
    have hpassed := passed_left (ha.deeds hdeeds) (hkept hi.toKept) (hlive (hl hf))
      (hbroker ▸ hd) hx hst hstopped hsink
    rw [hbroker] at hpassed
    refine hpassed.of_tidy [] (hdeeds.tidy ha).1 (fun _ => hf) ?_ nofun
    rw [hbroker, List.append_nil]
  | released c hheld hsink =>
    obtain ⟨hf, hd⟩ := hi.unfailed_of_channel (.inr (by simp [hheld]))
    exact ⟨[], [.cancelConfirmed c.tag], .released c hheld hsink,
      passed_released ha hi.toKept (hl hf) hd hheld⟩

end Harness
end Intercept
