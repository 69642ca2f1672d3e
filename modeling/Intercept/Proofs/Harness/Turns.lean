import Mathlib.Logic.Relation
import Intercept.Proofs.Harness.Handing
import Intercept.Proofs.Harness.Moves

/-! Every move of a harness consists of deeds, after a delivery was handed out perhaps. -/
namespace Intercept
variable {M : Type}

/-- An acknowledgement takes a tag, and everything else leaves the acknowledged tags as they are. -/
theorem Broker.acked_ack {κ : Type} {b : Broker κ} {tag : Nat} :
    (∀ t ∈ b.acked, t ∈ (b.ack tag).1.acked) ∧
      ((b.ack tag).2 = .ok () → tag ∈ (b.ack tag).1.acked) := by
  rw [ack, onOpen]
  split
  · exact ⟨fun _ ht => ht, fun hr => by cases hr⟩
  · split
    · exact ⟨fun t ht => List.mem_append_left _ ht,
        fun _ => List.mem_append_right _ (List.mem_singleton.2 rfl)⟩
    · exact ⟨fun _ ht => ht, fun hr => by cases hr⟩

theorem Broker.acked_nack {κ : Type} {b : Broker κ} {tag : Nat} {multiple : Bool} :
    (b.nack tag multiple).1.acked = b.acked := by
  rw [nack, onOpen]
  split
  · rfl
  · split <;> rfl

theorem Broker.acked_start {κ : Type} {b : Broker κ} {tag : String} {priority : Int} {sink : κ} :
    (b.start tag priority sink).1.acked = b.acked := by
  rw [start, onOpen]
  split <;> rfl

theorem Broker.acked_cancel {κ : Type} {b : Broker κ} {tag : String} :
    (b.cancel tag).1.acked = b.acked := by
  rw [cancel, onOpen]
  split
  · rfl
  · split
    · rfl
    · simp only
      split <;> rfl

theorem Lifecycle.setComplete_error_terminal {l l' : Lifecycle} {consumer : String}
    {e : HarnessError} (h : l.setComplete consumer = (l', .error e)) : e.isTerminal = true := by
  obtain ⟨state, stopRequested, started, fullyStopped⟩ := l
  cases state <;> cases h <;> rfl

namespace Harness
variable {cfg : Setup M} {loud : Prop} {h h' : Harness M} {c g i : Nat} {w : Wait M}
  {e : HarnessError} {x : Generation}

/-- Deeds one after the other. -/
abbrev Deeds (loud : Prop) : Harness M → Harness M → Prop :=
  Relation.ReflTransGen (Deed loud)

theorem Deed.one (hd : Deed loud h h') : Deeds loud h h' := .single hd

theorem Attended.deeds (ha : h.Attended cfg) (hd : Deeds loud h h') : h'.Attended cfg := by
  induction hd with
  | refl => exact ha
  | tail _ hd ih => exact ih.deed hd

/-! The harness ends. -/

theorem foldl_complete_eq (h : Harness M) (waiters : List (Waiter M))
    (error : Waiter M → HarnessError) :
    waiters.foldl (fun h w => h.complete w.id (.error (error w))) h =
      { h with waits := resolveAll h.waits waiters error } := by
  induction waiters generalizing h with
  | nil => rfl
  | cons w rest ih => exact ih (h.complete w.id (.error (error w)))

/-- How a generation changes that stays where it is. -/
theorem advance_life {φ : Lifecycle → Lifecycle} (ha : h.Attended cfg)
    (hφ : ∀ l : Lifecycle, l.Onward (φ l)) (hended : ∀ l : Lifecycle, (φ l).state ≠ .started)
    (hquiet : ∀ l : Lifecycle, (φ l).fullyStopped = .resolved (.ok ()) →
      l.fullyStopped = .resolved (.ok ())) :
    Deed loud h (h.changeLife g φ) := by
  refine .moved g _ fun x hx => ⟨⟨hφ x.life, id, ?_, fun _ => hended x.life, id, fun _ => id⟩,
    .inr (hquiet x.life), rfl⟩
  exact fun d hs => fun hinitial => ha.opened g x d hx hs ((hφ x.life).unstarted hinitial)

theorem deed_stop (ha : h.Attended cfg) : Deed loud h (h.changeLife g (·.stop)) :=
  advance_life ha (fun _ => Lifecycle.onward_stop) (fun _ => Lifecycle.stop_not_started)
    fun l hl => by
      rw [Lifecycle.steady_stop.fullyStopped] at hl
      exact hl

theorem deed_setException (ha : h.Attended cfg) (he : e.isTerminal = true) :
    Deed loud h (h.changeLife g (·.setException e)) := by
  refine advance_life ha (fun _ => Lifecycle.onward_setException he)
    (fun _ => by simp [Lifecycle.setException_state]) fun l hl => ?_
  obtain ⟨state, stopRequested, started, fullyStopped⟩ := l
  cases state <;> cases fullyStopped <;> first | exact hl | cases hl

/-- Every listed waiter is completed. -/
def cleared (h : Harness M) (error : Waiter M → HarnessError) : Harness M :=
  { h with waits := resolveAll h.waits h.waiters error, waiters := [] }

theorem deeds_fail (ha : h.Attended cfg) (he : e.isTerminal = true) :
    Deeds loud h (h.fail e) := by
  rw [fail]
  cases hf : h.failure with
  | some _ => exact .refl
  | none =>
    have hclear : Deed loud h (h.cleared fun _ => e) :=
      .cleared _ fun _ => HarnessError.not_processing_of_terminal he
    cases hc : h.current with
    | none =>
      simp only [shutDown, foldl_complete_eq]
      exact hclear.one.tail (.ended e none rfl he)
    | some g =>
      simp only [shutDown, foldl_complete_eq]
      have hmoved : Deed loud (h.cleared fun _ => e) _ :=
        deed_setException (g := g) (ha.deed hclear) he
      exact (hclear.one.tail hmoved).tail (.ended e none rfl he)

theorem deeds_dispose (ha : h.Attended cfg) : Deeds loud h h.dispose := by
  rw [dispose]
  split
  · exact .refl
  · have hclear : Deed loud h (h.cleared fun _ => .cancelled) := .cleared _ fun _ => rfl
    cases hc : h.current with
    | none =>
      simp only [shutDown, foldl_complete_eq]
      exact hclear.one.tail (.ended .disposed h.current rfl rfl)
    | some g =>
      simp only [shutDown, foldl_complete_eq]
      have hmoved : Deed loud (h.cleared fun _ => .cancelled) _ :=
        deed_stop (g := g) (ha.deed hclear)
      exact (hclear.one.tail hmoved).tail (.ended .disposed h.current rfl rfl)

theorem deeds_disposeIfUnowned (ha : h.Attended cfg) :
    Deeds loud h h.disposeIfUnowned := by
  rw [disposeIfUnowned]
  split
  · exact deeds_dispose ha
  · exact .refl

theorem deeds_failGeneration (ha : h.Attended cfg) (he : e.isTerminal = true) :
    Deeds loud h (h.failGeneration g e) := by
  have hd : Deed loud h (h.changeLife g (·.setException e)) := deed_setException ha he
  exact hd.one.trans (deeds_fail (ha.deed hd) he)

theorem deed_enter {stage : Stage}
    (hended : ∀ x, h.generations[g]? = some x → x.stage ≠ .ended ∨ stage = .ended)
    (hrouting : ∀ d, stage ≠ .routing d)
    (hopening : stage.isOpening = true → ∀ x, h.generations[g]? = some x →
      x.life.state ≠ .started) (hfirst : stage ≠ .created none)
    (hfollows : ∀ x, h.generations[g]? = some x → ∀ p, stage.Follows p → x.stage.Follows p) :
    Deed loud h (h.enter g stage) := by
  refine .moved g _ fun x hx => ⟨⟨.refl, fun hs => ?_, fun d hs => (hrouting d hs).elim,
    fun hs => hopening hs x hx, fun hs => (hfirst hs).elim, fun p hs => hfollows x hx p hs⟩,
    .inr id, rfl⟩
  rcases hended x hx with hne | rfl
  · exact (hne hs).elim
  · rfl

theorem Orderly.unopened_of (ho : h.Orderly) (hx : h.generations[g]? = some x)
    (hs : x.stage.isOpening = true) :
    ∀ y, h.generations[g]? = some y → y.life.state ≠ .started := by
  intro y hy
  obtain rfl := Option.some.inj (hx.symm.trans hy)
  exact ho.unopened g x hx hs

theorem deed_end : Deed loud h (h.enter g .ended) :=
  deed_enter (fun _ _ => .inr rfl) nofun nofun nofun fun _ _ p hs => by
    rcases hs with hs | ⟨_, hs⟩ <;> cases hs

theorem deeds_startFailed (ha : h.Attended cfg) (he : e.isTerminal = true) :
    Deeds loud h (h.startFailed g e) := by
  have hended : Deed loud h (h.enter g .ended) := deed_end
  exact hended.one.trans (deeds_failGeneration (ha.deed hended) he)

/-! Waits. -/

theorem unlist_of_nil (hv : h.waitersOf i = []) : h.unlist i = h := by
  have hnone : ∀ v ∈ h.waiters, ¬ (v.id == i) = true := by
    intro v hv' heq
    have hmem : v ∈ h.waitersOf i := List.mem_filter.2 ⟨hv', heq⟩
    rw [hv] at hmem
    cases hmem
  rw [unlist, List.eraseP_of_forall_not hnone]

theorem stopIfIdle_cases (h : Harness M) :
    h.stopIfIdle = h ∨ ∃ g, h.stopIfIdle = h.changeLife g (·.stop) := by
  rw [stopIfIdle]
  split
  · exact .inr ⟨_, rfl⟩
  · exact .inl rfl

theorem deregister_cases (h : Harness M) (i : Nat) :
    h.deregister i = h.unlist i ∨ ∃ g, h.deregister i = (h.unlist i).changeLife g (·.stop) := by
  rw [deregister]
  split
  · exact stopIfIdle_cases (h.unlist i)
  · next hnone =>
    have hv : h.waitersOf i = [] := by
      apply List.filter_eq_nil_iff.2
      intro v hv hid
      exact hnone (List.any_eq_true.2 ⟨v, hv, hid⟩)
    exact .inl (unlist_of_nil hv).symm

theorem Attended.unlisted_of_calling (ha : h.Attended cfg) (hw : h.waits[i]? = some w)
    (hs : w.stage = .calling) : h.waitersOf i = [] := by
  cases ha.placed i w hw with
  | calling hv _ _ _ | claimed _ hv _ _ | apart hv _ _ _ _ => exact hv
  | listed _ _ _ _ _ _ _ hstart =>
    exact ((WaitStage.not_over_of_listed (hstart.imp_right (·.1))).1 hs).elim

theorem deeds_register (ha : h.Attended cfg) (hp : h.Paired) (hw : h.waits[i]? = some w)
    (hs : w.stage = .calling) : Deeds loud h (h.register i w) := by
  cases hf : h.failure with
  | some e =>
    have hv := ha.unlisted_of_calling hw hs
    have he := HarnessError.not_processing_of_terminal (ha.terminal e hf)
    have hd : Deed loud h _ := .turnedAway i w e hw (.inl hs) he
    rw [unlist_of_nil hv] at hd
    rw [register_of_failure hf, refuse]
    exact hd.one.trans (deeds_disposeIfUnowned (ha.deed hd))
  | none =>
    cases hj : h.joinable with
    | some g =>
      have hg : h.current = some g := (Option.filter_eq_some_iff.1 hj).1
      rw [register_joins hf hj]
      exact Deed.one (.joined i w g hf hw hs hg)
    | none =>
      rw [register_creates hf hj]
      exact Deed.one (.created i w hf ((hp.joinable_eq_none_iff hf).1 hj) hw hs)

/-- A waiter leaves the list, and the generation stops if it was the last one. -/
theorem deeds_unlisted {h₁ : Harness M} (ha : h.Attended cfg) (hd : Deed loud h h₁)
    (hs : h' = h₁ ∨ ∃ g, h' = h₁.changeLife g (·.stop)) : Deeds loud h h' := by
  rcases hs with rfl | ⟨g, rfl⟩
  · exact hd.one
  · exact hd.one.tail (deed_stop (ha.deed hd))

theorem deeds_expire {deadline : Nat} (ha : h.Attended cfg) (hw : h.waits[i]? = some w)
    (hs : w.stage = .awaiting deadline) : Deeds loud h (h.expire cfg i) := by
  have hhead : h.waiters.find? (·.id == i) = (h.waitersOf i).head? := (List.head?_filter).symm
  cases hv : h.waitersOf i with
  | nil =>
    rw [expire, hhead, hv]
    exact Deed.one (.overdue i w deadline hw hs hv)
  | cons v rest =>
    have hexpire : h.expire cfg i =
        (h.unlist i).stopIfIdle.finish i (.error (h.expiry cfg v)) := by
      rw [expire, hhead, hv]
      rfl
    have hlisted : h.waitersOf i ≠ [] := by simp [hv]
    have he : (h.expiry cfg v).isProcessing = false := by
      rw [expiry, Waiter.timeoutError]
      split <;> rfl
    refine deeds_unlisted ha (.expired i w deadline _ hw hs hlisted he) ?_
    rw [hexpire]
    rcases stopIfIdle_cases (h.unlist i) with hidle | ⟨g, hidle⟩
    · rw [hidle]
      exact .inl rfl
    · rw [hidle]
      exact .inr ⟨g, rfl⟩

theorem deeds_stepWait? (ha : h.Attended cfg) (hp : h.Paired) (hs : h.stepWait? cfg i = some h') :
    Deeds loud h h' := by
  rw [stepWait?, Option.bind_eq_bind, Option.bind_eq_some_iff] at hs
  obtain ⟨w, hw, hs⟩ := hs
  split at hs
  · next hstage =>
    cases hs
    exact deeds_register ha hp hw hstage
  · next g hstage =>
    obtain ⟨started, hstarted, hs⟩ := Option.bind_eq_some_iff.1 hs
    have hsignal : (h.life g).started = .resolved started := by
      cases hsig : (h.life g).started <;> simp_all
    cases started with
    | ok =>
      cases hs
      have hd : Deed loud h _ := .accepted i w g hw hstage hsignal
      exact hd.one.trans (deeds_disposeIfUnowned (ha.deed hd))
    | error e =>
      cases hs
      have he : e.isProcessing = false := by
        have hmem : h.life g ∈ h.lives := by
          cases hx : h.lives[g]? with
          | none => simp [life_eq, hx] at hsignal
          | some l => exact life_of_some hx ▸ List.mem_of_getElem? hx
        rcases (ha.signalled _ hmem).refused e hsignal with rfl | he
        · rfl
        · exact HarnessError.not_processing_of_terminal he
      have hd : Deed loud h _ := .turnedAway i w e hw (.inr ⟨g, hstage, hsignal⟩) he
      have hchain : Deeds loud h
          (((h.deregister i).enterWait i (.refused e)).tell i (.result (.error e))) := by
        refine deeds_unlisted ha hd ?_
        rcases deregister_cases h i with hidle | ⟨k, hidle⟩
        · rw [hidle]
          exact .inl rfl
        · rw [hidle]
          exact .inr ⟨k, rfl⟩
      exact hchain.trans (deeds_disposeIfUnowned (ha.deeds hchain))
  · next hstage =>
    cases hs
    exact Deed.one (.awaits i w _ hw (.inr ⟨hstage, _, rfl⟩))
  · next deadline hstage =>
    split at hs
    · next outcome houtcome =>
      cases hs
      refine Deed.one (.finished i w outcome hw (.inl ⟨deadline, hstage⟩) ?_)
      cases hsig : w.outcome <;> simp_all
    · split at hs
      · cases hs
        exact deeds_expire ha hw hstage
      · cases hs
  · next hstage =>
    obtain ⟨outcome, houtcome, rfl⟩ := Option.map_eq_some_iff.1 hs
    refine Deed.one (.finished i w outcome hw (.inr hstage) ?_)
    cases hsig : w.outcome <;> simp_all
  · cases hs

/-! Claims. -/

theorem deeds_returnPermit (h : Harness M) : Deeds loud h h.returnPermit := by
  rw [returnPermit]
  split
  · exact Deed.one (.quiet rfl)
  · next c rest hqueue => exact Deed.one (.granted c rest hqueue)

theorem deeds_launch {x : Claim M} (hx : h.claims[c]? = some x)
    (hs : x.stage = .claimed ∨ x.stage = .granted) : Deeds loud h (h.launch c x) := by
  rw [launch]
  split
  · next actions hcallback => exact Deed.one (.launched c x actions hx hs hcallback)
  · next hcallback =>
    have hd : Deed loud h _ := .brokeOff c x hx hs hcallback
    exact hd.one.trans (deeds_returnPermit _)

theorem deeds_takePermit {x : Claim M} (hx : h.claims[c]? = some x) (hs : x.stage = .claimed) :
    Deeds loud h (h.takePermit c x) := by
  rw [takePermit]
  split
  · have hd : Deed loud h { h with permits := h.permits - 1 } := .quiet rfl
    exact hd.one.trans (deeds_launch hx (.inl hs))
  · exact Deed.one (.queued c x hx hs)

theorem deeds_stepCallback? (hs : h.stepCallback? c = some h') : Deeds loud h h' := by
  rw [stepCallback?, Option.bind_eq_bind, Option.bind_eq_some_iff] at hs
  obtain ⟨x, hx, hs⟩ := hs
  split at hs
  · next actions hstage =>
    cases hs
    exact Deed.one (.began c x actions hx hstage)
  · next wakeAt actions hstage =>
    split at hs
    · cases hs
      exact Deed.one (.resumed c x actions hx (.inl ⟨wakeAt, hstage⟩))
    · cases hs
  · next gate actions hstage =>
    split at hs
    · cases hs
      exact Deed.one (.resumed c x actions hx (.inr ⟨gate, hstage⟩))
    · cases hs
  · cases hs

/-! Deliveries are settled. -/

theorem ack_booked (cfg : Setup M) (h : Harness M) (tag : Nat) :
    ∃ broker, (h.ack cfg tag).1 = { h with broker } ∧ (∀ t ∈ h.broker.acked, t ∈ broker.acked) ∧
      ((h.ack cfg tag).2 = .ok () → tag ∈ broker.acked) := by
  rw [ack]
  split
  · exact ⟨h.broker, rfl, fun _ ht => ht, by simp⟩
  · exact ⟨_, rfl, Broker.acked_ack⟩

theorem nack_booked (cfg : Setup M) (h : Harness M) (tag : Nat) (multiple : Bool) :
    ∃ broker, (h.nack cfg tag multiple).1 = { h with broker } ∧
      broker.acked = h.broker.acked := by
  rw [nack]
  split
  · exact ⟨h.broker, rfl, rfl⟩
  · exact ⟨_, rfl, Broker.acked_nack⟩

theorem nackAll_booked (cfg : Setup M) (h : Harness M) (rejects : List (Nat × Bool)) :
    ∃ broker, (h.nackAll cfg rejects).1 = { h with broker } ∧
      broker.acked = h.broker.acked := by
  induction rejects generalizing h with
  | nil => exact ⟨h.broker, rfl, rfl⟩
  | cons r rest ih =>
    obtain ⟨broker, hb, hacked⟩ := nack_booked cfg h r.1 r.2
    rw [nackAll]
    cases hr : h.nack cfg r.1 r.2 with
    | mk h₁ result =>
      rw [hr] at hb
      obtain rfl : h₁ = { h with broker } := hb
      cases result with
      | ok =>
        obtain ⟨broker', hb', hacked'⟩ := ih { h with broker }
        exact ⟨broker', hb', hacked'.trans hacked⟩
      | error e => exact ⟨broker, rfl, hacked⟩

/-- The books change, and the settlements made so far stay. -/
theorem deed_booked {broker : Broker Nat} {ledger : Ledger} (hb : broker.acked = h.broker.acked) :
    Deed True h { h with broker, ledger } :=
  .booked broker ledger trivial fun _ ht => hb ▸ ht

theorem modify_const_life {life : Lifecycle} {φ : Lifecycle → Lifecycle} :
    (h.changeLife g fun _ => life).changeLife g φ = h.changeLife g fun _ => φ life := by
  have hmodify := List.modify_modify_eq (fun x : Generation => { x with life })
    (fun x : Generation => { x with life := φ x.life }) g h.generations
  exact congrArg (fun generations => { h with generations }) hmodify

theorem deed_life {life : Lifecycle} (ha : h.Attended cfg) (hlife : (h.life g).Onward life)
    (hs : life.state ≠ .started) (hquiet : loud ∨ (life.fullyStopped = .resolved (.ok ()) →
      (h.life g).fullyStopped = .resolved (.ok ()))) :
    Deed loud h (h.changeLife g fun _ => life) := by
  refine .moved g _ fun x hx => ?_
  rw [life_of_some (lives_of_some hx)] at hlife hquiet
  exact ⟨⟨hlife, id, fun d hs hinitial => ha.opened g x d hx hs (hlife.unstarted hinitial),
    fun _ => hs, id, fun _ => id⟩, hquiet, rfl⟩

/-- How a teardown goes, once the generation has taken note of its cancel: the ledger hands out its
plan, and the generation ends well or with the first reject that fails. -/
theorem teardown_cases {life : Lifecycle} (cfg : Setup M)
    (hc : (h.life g).setComplete ((h.generations[g]?.map (·.consumer)).getD "") = (life, .ok ())) :
    ∃ broker result, ({ h.changeLife g fun _ => life with
          ledger := h.ledger.teardown.2 } : Harness M).nackAll cfg h.ledger.plan.rejects =
        ({ h.changeLife g fun _ => life with ledger := h.ledger.teardown.2, broker }, result) ∧
      broker.acked = h.broker.acked ∧
      (result = .ok () ∧ h.teardown cfg g =
          ({ h with broker, ledger := h.ledger.teardown.2 } : Harness M).changeLife g
            (fun _ => life.signalStopped) ∨
        ∃ e, result = .error e ∧ h.teardown cfg g =
          (({ h with broker, ledger := h.ledger.teardown.2 } : Harness M).changeLife g
            fun _ => life.setException (.transport e)).fail (.transport e)) := by
  obtain ⟨broker, hb, hacked⟩ := nackAll_booked cfg
    { h.changeLife g fun _ => life with ledger := h.ledger.teardown.2 } h.ledger.plan.rejects
  refine ⟨broker, _, Prod.ext hb rfl, hacked, ?_⟩
  rw [teardown, hc]
  simp only
  split
  · next h₁ hr =>
    have hresult : (({ h.changeLife g fun _ => life with
      ledger := h.ledger.teardown.2 } : Harness M).nackAll cfg h.ledger.plan.rejects) =
        (h₁, .ok ()) := hr
    rw [hresult] at hb ⊢
    obtain rfl : h₁ = _ := hb
    exact .inl ⟨rfl, modify_const_life
      (h := ({ h with broker, ledger := h.ledger.teardown.2 } : Harness M))⟩
  · next h₁ e hr =>
    have hresult : (({ h.changeLife g fun _ => life with
      ledger := h.ledger.teardown.2 } : Harness M).nackAll cfg h.ledger.plan.rejects) =
        (h₁, .error e) := hr
    rw [hresult] at hb ⊢
    obtain rfl : h₁ = _ := hb
    exact .inr ⟨e, rfl, congrArg (·.fail (.transport e)) (modify_const_life
      (h := ({ h with broker, ledger := h.ledger.teardown.2 } : Harness M)))⟩

/-- The rejects of a teardown fail, and the harness with them. -/
theorem deeds_teardown_fails {life : Lifecycle} {consumer : String} {e : BrokerError}
    (ha : h.Attended cfg) (hc : (h.life g).setComplete consumer = (life, .ok ())) :
    Deeds loud h
      ((h.changeLife g fun _ => life.setException (.transport e)).fail (.transport e)) := by
  have he : (HarnessError.transport e).isTerminal = true := rfl
  have hd : Deed loud h (h.changeLife g fun _ => life.setException (.transport e)) :=
    deed_life ha (Lifecycle.onward_handBack_fails he hc) (by simp [Lifecycle.setException_state])
      (.inr (Lifecycle.handBack_fails_quiet hc))
  exact hd.one.trans (deeds_fail (ha.deed hd) he)

theorem deeds_teardown (ha : h.Attended cfg) : Deeds True h (h.teardown cfg g) := by
  cases hc : (h.life g).setComplete ((h.generations[g]?.map (·.consumer)).getD "") with
  | mk life answer =>
    cases answer with
    | error e =>
      have he := Lifecycle.setComplete_error_terminal hc
      rw [teardown, hc, Lifecycle.setComplete_error hc]
      simp only
      rw [changeLife_life (f := (·.setException e))]
      exact deeds_failGeneration ha he
    | ok =>
      obtain ⟨broker, result, _, hacked, hcases⟩ := teardown_cases cfg hc
      have hbooked : Deed True h { h with broker, ledger := h.ledger.teardown.2 } :=
        deed_booked hacked
      rcases hcases with ⟨_, heq⟩ | ⟨e, _, heq⟩
      · rw [heq]
        exact hbooked.one.tail (deed_life (ha.deed hbooked) (Lifecycle.onward_handBack hc)
          (Lifecycle.signalStopped_state.trans_ne (Lifecycle.setComplete_not_started hc))
          (.inl trivial))
      · rw [heq]
        exact hbooked.one.trans (deeds_teardown_fails (ha.deed hbooked) hc)

theorem deeds_confirm {c : Consumer Nat} (ha : h.Attended cfg) :
    Deeds True h (h.confirm cfg c) :=
  (deeds_teardown ha).tail (.booked _ _ trivial fun _ ht => ht)

/-- The books change as a failure is seen to, perhaps in vain. -/
theorem rejectFailed_cases (cfg : Setup M) (h : Harness M) (tag : Nat) :
    ∃ broker ledger, broker.acked = h.broker.acked ∧
      (h.rejectFailed cfg tag = { h with broker, ledger } ∨
        ∃ e : BrokerError, h.rejectFailed cfg tag =
          ({ h with broker, ledger } : Harness M).fail (.transport e)) := by
  rw [rejectFailed]
  split
  · obtain ⟨ledger, hl⟩ := settle_eq h tag .alreadyNacked
    obtain ⟨broker, hb, hacked⟩ := nack_booked cfg (h.settle tag .alreadyNacked) tag false
    rw [hl] at hb hacked ⊢
    split
    · next h₁ hr =>
      rw [hr] at hb
      exact ⟨broker, ledger, hacked, .inl hb⟩
    · next h₁ e hr =>
      rw [hr] at hb
      obtain rfl : h₁ = _ := hb
      exact ⟨broker, ledger, hacked, .inr ⟨e, rfl⟩⟩
  · obtain ⟨ledger, hl⟩ := settle_eq h tag .shouldNack
    exact ⟨h.broker, ledger, rfl, .inl hl⟩

/-- A failure does not look at waits that are not listed. -/
theorem complete_fail {outcome : Outcome M} (hv : h.waitersOf i = []) :
    (h.fail e).complete i outcome = (h.complete i outcome).fail e := by
  have hfind : h.waiters.find? (·.id == i) = none := by
    rw [← List.head?_filter]
    exact congrArg List.head? hv
  have hcommute : ∀ (waits : List (Wait M)) (f : Wait M → Wait M),
      (resolveAll waits h.waiters fun _ => e).modify i f =
        resolveAll (waits.modify i f) h.waiters fun _ => e := by
    intro waits f
    apply List.ext_getElem?
    intro k
    by_cases hk : i = k
    · subst hk
      rw [List.getElem?_modify_eq, resolveAll_eq, resolveAll_eq, List.getElem?_modify_eq, hfind]
      cases waits[i]? <;> rfl
    · rw [List.getElem?_modify_ne _ _ hk, resolveAll_eq, resolveAll_eq,
        List.getElem?_modify_ne _ _ hk]
  have hf : (h.complete i outcome).failure = h.failure := rfl
  have hc : (h.complete i outcome).current = h.current := rfl
  rw [fail, fail, hf]
  cases h.failure with
  | some _ => rfl
  | none =>
    rw [hc]
    cases h.current with
    | none =>
      simp only [shutDown, foldl_complete_eq]
      simp only [complete, changeWait, hcommute]
    | some g =>
      simp only [shutDown, foldl_complete_eq]
      simp only [complete, changeWait, changeLife, changeGeneration, hcommute]

theorem deeds_conclude {x : Claim M} {result : Except Failure Unit} (ha : h.Attended cfg)
    (hx : h.claims[c]? = some x) (hs : x.stage = .running (.returned result)) :
    Deeds True h (h.conclude cfg c x result) := by
  obtain ⟨w, hw, hv, _, _⟩ := ha.wait_of_claim (List.mem_of_getElem? hx)
  unfold conclude
  refine Relation.ReflTransGen.trans ?_ (deeds_returnPermit _)
  cases result with
  | ok =>
    obtain ⟨broker, hb, hacked⟩ := ack_booked cfg h x.tag
    cases hr : h.ack cfg x.tag with
    | mk h₁ answer =>
      rw [hr] at hb hacked
      obtain rfl : h₁ = { h with broker } := hb
      cases answer with
      | ok =>
        obtain ⟨ledger, hl⟩ := settle_eq { h with broker } x.tag .acked
        simp only [hl]
        exact Deed.one (.answered c x (.ok ()) _ broker ledger trivial hx hs hacked.1
          (.acked (hacked.2 rfl)))
      | error e =>
        have hd : Deed True h _ := .answered c x (.ok ()) _ broker h.ledger trivial hx hs
          hacked.1 (.lost e)
        simp only [enterClaim_fail]
        exact hd.one.trans (deeds_fail (ha.deed hd) rfl)
  | error failure =>
    obtain ⟨broker, ledger, hacked, hcases⟩ := rejectFailed_cases cfg h x.tag
    have hd : Deed True h _ := .answered c x (.error failure) _ broker ledger trivial hx hs
      (fun _ ht => hacked ▸ ht) (.failed failure)
    simp only
    rcases hcases with heq | ⟨e, heq⟩
    · rw [heq]
      exact hd.one
    · have hv' : ({ h with broker, ledger } : Harness M).waitersOf x.wait = [] := hv
      rw [heq, complete_fail hv', enterClaim_fail]
      exact hd.one.trans (deeds_fail (ha.deed hd) rfl)

theorem deeds_stepClaim? (ha : h.Attended cfg) (hs : h.stepClaim? cfg c = some h') :
    Deeds True h h' := by
  rw [stepClaim?, Option.bind_eq_bind, Option.bind_eq_some_iff] at hs
  obtain ⟨x, hx, hs⟩ := hs
  split at hs
  · next hstage =>
    cases hs
    exact deeds_takePermit hx hstage
  · next hstage =>
    cases hs
    exact deeds_launch hx (.inr hstage)
  · next result hstage =>
    cases hs
    exact deeds_conclude ha hx hstage
  · cases hs

/-! Generations. -/

/-- A generation whose consumer is attached has started. -/
theorem deed_attached (hx : h.generations[g]? = some x) (hs : x.stage.isOpening = true) :
    Deed loud h ((h.enter g (.routing none)).changeLife g (·.setStarted)) := by
  have heq : (h.enter g (.routing none)).changeLife g (·.setStarted) =
      h.changeGeneration g fun x =>
        { x with stage := .routing none, life := x.life.setStarted } :=
    congrArg (fun generations => ({ h with generations } : Harness M))
      (List.modify_modify_eq _ _ _ _)
  rw [heq]
  refine .moved g _ fun y hy => ?_
  obtain rfl : x = y := Option.some.inj (hx.symm.trans hy)
  refine ⟨⟨Lifecycle.onward_setStarted, fun he => ?_, fun _ _ => ?_, nofun, nofun, fun p hp => ?_⟩,
    .inr fun hdone => ?_, rfl⟩
  · rw [he] at hs
    cases hs
  · obtain ⟨⟨state, _, _, _⟩, _⟩ := x
    cases state <;> simp [Lifecycle.setStarted, GenerationState.on]
  · rcases hp with hp | ⟨_, hp⟩ <;> cases hp
  · rw [Lifecycle.steady_setStarted.fullyStopped] at hdone
    exact hdone

theorem deeds_attach (ha : h.Attended cfg) (hx : h.generations[g]? = some x)
    (hs : x.stage.isOpening = true) : Deeds True h (h.attach cfg g) := by
  have hacked : ∀ consumer : String,
      (h.broker.start consumer cfg.settings.priority.toInt g).1.acked = h.broker.acked :=
    fun _ => Broker.acked_start
  rw [attach]
  split
  · next broker hb =>
    have hbooked : Deed True h { h with broker } :=
      deed_booked (by rw [← hacked, hb])
    exact hbooked.one.tail (deed_attached (h := { h with broker }) hx hs)
  · next broker e hb =>
    have hbooked : Deed True h { h with broker } :=
      deed_booked (by rw [← hacked, hb])
    exact hbooked.one.trans (deeds_startFailed (ha.deed hbooked) rfl)

theorem deeds_subscribe (ha : h.Attended cfg) (hx : h.generations[g]? = some x)
    (hs : x.stage.isOpening = true) : Deeds True h (h.subscribe cfg g) := by
  rw [subscribe]
  split
  · have hd : Deed True h (h.enter g .ended) := deed_end
    exact hd.one.trans (deeds_teardown (ha.deed hd))
  · have hnamed : Deed True h (h.changeGeneration g fun x =>
        { x with consumer := cfg.consumerTag h.subscriptions.length }) :=
      .moved g _ fun y hy => ⟨⟨.refl, id, fun d => ha.opened g y d hy, ha.unopened g y hy, id,
        fun _ => id⟩, .inr id, rfl⟩
    have hd : Deeds True h ({ h with
        subscriptions := h.subscriptions ++ [g] }.changeGeneration g fun x =>
          { x with consumer := cfg.consumerTag h.subscriptions.length }) :=
      hnamed.one.tail (.quiet rfl)
    have hx' : ({ h with subscriptions := h.subscriptions ++ [g] }.changeGeneration g fun x =>
        { x with consumer := cfg.consumerTag h.subscriptions.length }).generations[g]? =
        some { x with consumer := cfg.consumerTag h.subscriptions.length } :=
      getElem?_changeGeneration hx
    simp only
    split
    · exact hd.trans (deeds_attach (ha.deeds hd) hx' hs)
    · exact hd.trans (deeds_startFailed (ha.deeds hd) rfl)
    · refine hd.tail (deed_enter (fun y hy => .inl ?_) (by simp)
        (fun _ => (ha.deeds hd).unopened_of hx' hs) (by simp) fun _ _ p hp => ?_)
      · obtain rfl := Option.some.inj (hx'.symm.trans hy)
        rintro he
        change x.stage = .ended at he
        rw [he] at hs
        cases hs
      · rcases hp with hp | ⟨_, hp⟩ <;> cases hp

theorem deeds_leave (ha : h.Attended cfg) : Deeds True h (h.leave cfg g) := by
  have hended : Deed True h (h.enter g .ended) := deed_end
  have hd : Deeds True h { h.enter g .ended with cancelCalls := h.cancelCalls + 1 } :=
    hended.one.tail (.quiet rfl)
  have ha' := ha.deeds hd
  rw [leave]
  simp only
  split
  · exact hd.trans (deeds_fail ha' rfl)
  · have hcancelled : ∀ {consumer broker result}, h.broker.cancel consumer = (broker, result) →
        Deeds True h { h.enter g .ended with cancelCalls := h.cancelCalls + 1, broker } := by
      intro consumer broker result hb
      have hacked : (h.broker.cancel consumer).1.acked = h.broker.acked := Broker.acked_cancel
      rw [hb] at hacked
      exact hd.tail (deed_booked hacked)
    split
    · next broker e hb =>
      have hbooked := hcancelled hb
      exact hbooked.trans (deeds_fail (ha.deeds hbooked) rfl)
    · next broker hb => exact hcancelled hb
    · next broker c hb =>
      have hbooked := hcancelled hb
      exact hbooked.trans (deeds_confirm (ha.deeds hbooked))

theorem deeds_expireAll (ha : h.Attended cfg) : Deeds loud h (h.expireAll cfg g) := by
  have hclear : Deed loud h (h.cleared fun w =>
      w.timeoutError (w.report .unackedMessage cfg.settings.timeout cfg.context)) := by
    refine .cleared _ fun w => ?_
    rw [Waiter.timeoutError]
    split <;> rfl
  rw [expireAll, foldl_complete_eq]
  exact hclear.one.tail (deed_stop (ha.deed hclear))

/-- What a move does: deeds, which may follow upon a delivery that is handed out. -/
def Turn (cfg : Setup M) (h h' : Harness M) : Prop :=
  Deeds True h h' ∨ ∃ g d h₁, h.Routed cfg g d h₁ ∧ Deeds False h₁ h'

theorem turn_route? {deadline : Option Nat} (ha : h.Attended cfg) (hp : h.Paired)
    (hx : h.generations[g]? = some x) (hst : x.stage = .routing deadline)
    (hs : h.route? cfg g deadline = some h') : h.Turn cfg h' := by
  simp only [route?, hx, Option.bind_eq_bind, Option.bind_some] at hs
  split at hs
  · cases hs
    exact .inl (deeds_leave ha)
  · next hgoing =>
    split at hs
    · cases hs
      have hd : Deeds True h (h.expireAll cfg g) := deeds_expireAll ha
      exact .inl (hd.trans (deeds_leave (ha.deeds hd)))
    · split at hs
      · next d rest hin =>
        cases hs
        obtain ⟨h₁, hr, heq⟩ := dispatch_routed cfg deadline
          (Serves.mk hx ⟨deadline, hst⟩ hgoing hin)
        refine .inr ⟨g, d, h₁, hr, ?_⟩
        rw [heq]
        split
        · exact (deed_stop (ha.routed hp hr)).one
        · exact .refl
      · split at hs
        · cases hs
        · cases hs
          exact .inl (deeds_leave ha)

theorem deed_waiting {previous deadline : Nat} (ho : h.Orderly) (hx : h.generations[g]? = some x)
    (hst : x.stage = .created (some previous)) :
    Deed loud h (h.enter g (.waiting previous deadline)) := by
  have hopening : x.stage.isOpening = true := by rw [hst]; rfl
  refine deed_enter (fun y hy => .inl ?_) nofun (fun _ => ho.unopened_of hx hopening) nofun
    fun y hy p hp => ?_
  all_goals obtain rfl := Option.some.inj (hx.symm.trans hy)
  · simp [hst]
  · rcases hp with hp | ⟨_, hp⟩
    · cases hp
    · cases hp
      exact .inl hst

/-- The error of a generation that could not hand its messages back. -/
theorem Orderly.failed_terminal (ho : h.Orderly)
    (hs : (h.life g).fullyStopped = .resolved (.error e)) : e.isTerminal = true := by
  cases hl : h.lives[g]? with
  | none => simp [life_eq, hl] at hs
  | some l =>
    rw [life_of_some hl] at hs
    exact (ho.signalled l (List.mem_of_getElem? hl)).failed e hs

theorem turn_stepGeneration? (ha : h.Attended cfg) (hp : h.Paired)
    (hs : h.stepGeneration? cfg g = some h') : h.Turn cfg h' := by
  rw [stepGeneration?, Option.bind_eq_bind, Option.bind_eq_some_iff] at hs
  obtain ⟨x, hx, hs⟩ := hs
  split at hs
  · next hst =>
    cases hs
    exact .inl (deeds_subscribe ha hx (by rw [hst]; rfl))
  · next previous hst =>
    cases hs
    exact .inl (deed_waiting ha.toOrderly hx hst).one
  · next previous deadline hst =>
    split at hs
    · cases hs
      exact .inl (deeds_subscribe ha hx (by rw [hst]; rfl))
    · next e he =>
      cases hs
      refine .inl (deeds_startFailed ha (ha.failed_terminal (g := previous) ?_))
      cases hsig : (h.life previous).fullyStopped <;> simp_all
    · split at hs
      · cases hs
        exact .inl (deeds_startFailed ha rfl)
      · cases hs
  · next answerAt deadline error hst =>
    split at hs
    · split at hs
      · cases hs
        exact .inl (deeds_attach ha hx (by rw [hst]; rfl))
      · cases hs
        exact .inl (deeds_startFailed ha rfl)
    · split at hs
      · cases hs
        exact .inl (deeds_startFailed ha rfl)
      · cases hs
  · next deadline hst => exact turn_route? ha hp hx hst hs
  · cases hs

/-! Acts. -/

theorem deeds_publish {body : Body} : Deeds True h (h.publish body).1 := by
  rw [publish]
  cases hb : h.broker.publish body with
  | mk broker answer =>
    have hacked : broker.acked = h.broker.acked := by
      rw [Broker.publish] at hb
      split at hb <;> cases hb <;> rfl
    have hd : Deed True h { h with broker } := deed_booked hacked
    cases answer with
    | none => exact hd.one
    | some delivered => exact hd.one.tail (.received delivered.2 _ trivial)

theorem deeds_publishAll {bodies : List Body} : Deeds True h (h.publishAll bodies).1 := by
  induction bodies generalizing h with
  | nil => exact .refl
  | cons body rest ih => exact deeds_publish.trans ih

theorem deeds_confirmAll {held : List (Consumer Nat)} (ha : h.Attended cfg) :
    Deeds True h (held.foldl (fun (h : Harness M) c => h.confirm cfg c) h) := by
  induction held generalizing h with
  | nil => exact .refl
  | cons c rest ih =>
    have hd := deeds_confirm (c := c) ha
    exact hd.trans (ih (ha.deeds hd))

theorem deeds_failAll {consumers : List (Consumer Nat)} (ha : h.Attended cfg)
    (he : e.isTerminal = true) :
    Deeds loud h (consumers.foldl (fun h _ => h.fail e) h) := by
  induction consumers generalizing h with
  | nil => exact .refl
  | cons c rest ih =>
    have hd : Deeds loud h (h.fail e) := deeds_fail ha he
    exact hd.trans (ih (ha.deeds hd))

theorem deeds_giveUp (ha : h.Attended cfg) (hs : h.giveUp i = some h') :
    Deeds loud h h' := by
  rw [giveUp, Option.bind_eq_bind, Option.bind_eq_some_iff] at hs
  obtain ⟨w, hw, hs⟩ := hs
  have hleft : w.stage.isRegistering = true ∨ w.stage.isAccepted = true ∨ w.stage = .overdue →
      Deeds loud h ((h.deregister i).enterWait i .dropped) := by
    intro hstage
    refine deeds_unlisted ha (.left i w hw hstage) ?_
    rcases deregister_cases h i with hidle | ⟨k, hidle⟩
    · rw [hidle]
      exact .inl rfl
    · rw [hidle]
      exact .inr ⟨k, rfl⟩
  split at hs
  · next hstage =>
    cases hs
    have hd : Deed loud h _ := .left i w hw (.inl (by rw [hstage]; rfl))
    rw [unlist_of_nil (ha.unlisted_of_calling hw hstage)] at hd
    exact hd.one.trans (deeds_disposeIfUnowned (ha.deed hd))
  · next hstage =>
    cases hs
    have hd := hleft (.inl (by rw [hstage]; rfl))
    exact hd.trans (deeds_disposeIfUnowned (ha.deeds hd))
  · next hstage =>
    cases hs
    exact hleft (.inr (.inl (by rw [hstage]; rfl)))
  · next hstage =>
    cases hs
    exact hleft (.inr (.inl (by rw [hstage]; rfl)))
  · next hstage =>
    cases hs
    exact hleft (.inr (.inl (by rw [hstage]; rfl)))
  · next hstage =>
    cases hs
    exact hleft (.inr (.inr hstage))
  · cases hs
    exact .refl
  · cases hs
  · cases hs

theorem deeds_await (hs : h.await i = some h') : Deeds loud h h' := by
  rw [await, Option.bind_eq_bind, Option.bind_eq_some_iff] at hs
  obtain ⟨w, hw, hs⟩ := hs
  split at hs
  · next hstage =>
    cases hs
    exact Deed.one (.awaits i w _ hw (.inl ⟨hstage, rfl⟩))
  · cases hs

theorem deeds_act {a : Act M} {reply : BrokerReply} (ha : h.Attended cfg)
    (hact : h.act? cfg a = some (h', reply)) : Deeds True h h' := by
  cases a with
  | call description predicate =>
    rw [act?] at hact
    split at hact
    · cases hact
    · cases hact
      exact Deed.one (.called _ rfl rfl)
  | await i =>
    obtain ⟨h₁, hs, heq⟩ := Option.map_eq_some_iff.1 hact
    cases heq
    exact deeds_await hs
  | giveUp i =>
    obtain ⟨h₁, hs, heq⟩ := Option.map_eq_some_iff.1 hact
    cases heq
    exact deeds_giveUp ha hs
  | publish body =>
    cases hact
    exact deeds_publish
  | publishAll bodies =>
    cases hact
    exact deeds_publishAll
  | release =>
    cases hact
    have hd : Deed True h { h with broker := h.broker.release.1 } :=
      deed_booked rfl
    exact hd.one.trans (deeds_confirmAll (ha.deed hd))
  | failConnection reason =>
    cases hact
    exact deeds_failAll ha rfl
  | ack tag =>
    cases hact
    exact Deed.one (.booked _ h.ledger trivial Broker.acked_ack.1)
  | nack tag multiple =>
    cases hact
    exact Deed.one (deed_booked Broker.acked_nack)
  | disposeBroker =>
    cases hact
    exact Deed.one (deed_booked Broker.still_dispose.acked)
  | notify consumer event =>
    obtain ⟨_, _, hact⟩ := Option.bind_eq_some_iff.1 hact
    obtain ⟨g, _, hact⟩ := Option.bind_eq_some_iff.1 hact
    obtain ⟨_, _, hact⟩ := Option.bind_eq_some_iff.1 hact
    cases hact
    cases event with
    | received tag body => exact Deed.one (.received g _ trivial)
    | cancelled => exact deeds_teardown ha
    | failed e => exact deeds_fail ha rfl
  | dispose =>
    rw [act?] at hact
    split at hact
    · cases hact
    · cases hact
      exact deeds_dispose ha
  | drop =>
    cases hact
    have hd : Deed True h { h with dropped := true } := .quiet rfl
    exact hd.one.trans (deeds_disposeIfUnowned (ha.deed hd))
  | openGate | hold | consumeBacklog =>
    cases hact
    exact Deed.one (.quiet rfl)

/-- Say once what a move can do. -/
theorem turn_of_moves {allowed : Act M → Prop} (ha : h.Attended cfg) (hp : h.Paired)
    (hm : Moves cfg allowed h h') : h.Turn cfg h' := by
  cases hm with
  | act a _ hact => exact .inl (deeds_act ha hact)
  | tick => exact .inl (Deed.one (.quiet rfl))
  | step t hs =>
    cases t with
    | wait i => exact .inl (deeds_stepWait? ha hp hs)
    | generation g => exact turn_stepGeneration? ha hp hs
    | claim c => exact .inl (deeds_stepClaim? ha hs)
    | callback c => exact .inl (deeds_stepCallback? hs)

theorem Attended.turn (ha : h.Attended cfg) (hp : h.Paired) (ht : h.Turn cfg h') :
    h'.Attended cfg := by
  rcases ht with hd | ⟨g, d, h₁, hr, hd⟩
  · exact ha.deeds hd
  · exact (ha.routed hp hr).deeds hd

theorem Run.attended {allowed : Act M → Prop} {s : Nat → Harness M} (hr : Run cfg allowed s)
    (n : Nat) : (s n).Attended cfg := by
  induction n with
  | zero =>
    rw [hr.start]
    exact attended_initial
  | succ n ih =>
    rcases hr.next n with heq | hm
    · rw [heq]
      exact ih
    · have hp := paired_reachable (hr.reachable n)
      exact ih.turn hp (turn_of_moves ih hp hm)

end Harness
end Intercept
