import Intercept.Proofs.Harness.Change

/-! The pairing of waiters and generations, and how it survives stops, failures and settlements. -/
namespace Intercept.Harness
variable {M : Type} {cfg : Setup M} {h h' : Harness M} {g i : Nat}

/-- Only the current generation observes the queue. -/
structure Ordered (h : Harness M) : Prop where
  current_lt : ∀ g, h.current = some g → g < h.lives.length
  current_observes : ∀ g l, h.lives[g]? = some l → l.state.isObserving = true → h.current = some g
  consistent : ∀ l ∈ h.lives, l.Consistent

/-- It observes the queue exactly as long as somebody waits, which nobody does after a failure. -/
structure Paired (h : Harness M) : Prop extends Ordered h where
  awaited : ∀ l ∈ h.lives, l.state.isObserving = true → h.failure = none ∧ h.waiters ≠ []
  observed : h.waiters ≠ [] → ∃ l ∈ h.lives, l.state.isObserving = true
  unfailed : h.failure = none → ∀ l ∈ h.lives, l.state ≠ .errored

theorem Ordered.congr (ho : h.Ordered) (hl : h'.lives = h.lives) (hc : h'.current = h.current) :
    h'.Ordered := by
  refine ⟨?_, ?_, ?_⟩
  · rw [hl, hc]
    exact ho.current_lt
  · rw [hl, hc]
    exact ho.current_observes
  · rw [hl]
    exact ho.consistent

theorem Paired.congr (hp : h.Paired) (hl : h'.lives = h.lives) (hc : h'.current = h.current)
    (hf : h'.failure = h.failure) (hw : h'.waiters = [] ↔ h.waiters = []) : h'.Paired := by
  refine ⟨hp.toOrdered.congr hl hc, ?_, ?_, ?_⟩
  · rw [hl, hf, ne_eq, hw]
    exact hp.awaited
  · rw [hl, ne_eq, hw]
    exact hp.observed
  · rw [hl, hf]
    exact hp.unfailed

/-- The part of a harness that the pairing is about. -/
def parties (h : Harness M) :
    List Generation × Option Nat × Option HarnessError × List (Waiter M) :=
  (h.generations, h.current, h.failure, h.waiters)

/-- What changes only the waits, the broker, the ledger, the claims and the like. -/
theorem Paired.quiet (hp : h.Paired) (hs : h'.parties = h.parties) : h'.Paired := by
  simp only [parties, Prod.mk.injEq] at hs
  obtain ⟨hg, hc, hf, hw⟩ := hs
  exact hp.congr (by rw [lives, hg, lives]) hc hf (by rw [hw])

theorem Paired.enter {stage : Stage} (hp : h.Paired) : (h.enter g stage).Paired :=
  hp.congr lives_enter rfl rfl Iff.rfl

/-! A generation changes its life. -/

/-- A change that makes nothing observe the queue keeps the order. -/
theorem Ordered.changeLife {f : Lifecycle → Lifecycle} (ho : h.Ordered)
    (hf : ∀ l, h.lives[g]? = some l → l.Consistent → (f l).Consistent)
    (hs : ∀ l, h.lives[g]? = some l → (f l).state.isObserving = true →
      l.state.isObserving = true) :
    (h.changeLife g f).Ordered := by
  refine ⟨?_, ?_, ?_⟩
  · intro k hk
    rw [lives_changeLife, List.length_modify]
    exact ho.current_lt k hk
  · intro k l hk hl
    obtain ⟨l₀, hx, hl₀⟩ := lives_of_changeLife hk
    rcases hl₀ with ⟨_, rfl⟩ | ⟨rfl, rfl⟩
    · exact ho.current_observes k l hx hl
    · exact ho.current_observes g l₀ hx (hs l₀ hx hl)
  · intro l hl
    obtain ⟨k, hk⟩ := List.getElem?_of_mem hl
    obtain ⟨l₀, hx, hl₀⟩ := lives_of_changeLife hk
    have hc := ho.consistent l₀ (List.mem_of_getElem? hx)
    rcases hl₀ with ⟨_, rfl⟩ | ⟨rfl, rfl⟩
    · exact hc
    · exact hf l₀ hx hc

/-- A change that concerns neither observing nor failing keeps the pairing. -/
theorem Paired.changeLife {f : Lifecycle → Lifecycle} (hp : h.Paired)
    (hf : ∀ l, h.lives[g]? = some l → l.Consistent → (f l).Consistent)
    (hs : ∀ l, h.lives[g]? = some l → (f l).state.isObserving = l.state.isObserving)
    (he : ∀ l, h.lives[g]? = some l → (f l).state = .errored → l.state = .errored) :
    (h.changeLife g f).Paired := by
  refine ⟨hp.toOrdered.changeLife hf fun l hx hl => hs l hx ▸ hl, ?_, ?_, ?_⟩
  · intro l hl hobs
    obtain ⟨k, hk⟩ := List.getElem?_of_mem hl
    obtain ⟨l₀, hx, hl₀⟩ := lives_of_changeLife hk
    refine hp.awaited l₀ (List.mem_of_getElem? hx) ?_
    rcases hl₀ with ⟨_, rfl⟩ | ⟨rfl, rfl⟩
    · exact hobs
    · exact hs l₀ hx ▸ hobs
  · intro hw
    obtain ⟨l, hmem, hobs⟩ := hp.observed hw
    obtain ⟨k, hk⟩ := List.getElem?_of_mem hmem
    have hnew : (h.changeLife g f).lives[k]? = some (if g = k then f l else l) := by
      rw [lives_changeLife, List.getElem?_modify, hk]
      rfl
    refine ⟨_, List.mem_of_getElem? hnew, ?_⟩
    split
    · next hgk =>
      subst hgk
      rw [hs l hk]
      exact hobs
    · exact hobs
  · intro hfail l hl herr
    obtain ⟨k, hk⟩ := List.getElem?_of_mem hl
    obtain ⟨l₀, hx, hl₀⟩ := lives_of_changeLife hk
    refine hp.unfailed hfail l₀ (List.mem_of_getElem? hx) ?_
    rcases hl₀ with ⟨_, rfl⟩ | ⟨rfl, rfl⟩
    · exact herr
    · exact he l₀ hx herr

/-- Once the current generation has ended its observing, nobody observes the queue. -/
theorem Ordered.nobody_observes {f : Lifecycle → Lifecycle} (ho : h.Ordered)
    (hc : h.current = some g) (hf : ∀ l, (f l).state.isObserving = false) :
    ∀ l ∈ (h.changeLife g f).lives, l.state.isObserving = false := by
  intro l hl
  obtain ⟨k, hk⟩ := List.getElem?_of_mem hl
  obtain ⟨l₀, hx, hl₀⟩ := lives_of_changeLife hk
  rcases hl₀ with ⟨hne, rfl⟩ | ⟨rfl, rfl⟩
  · apply Bool.eq_false_iff.2
    intro hobs
    have hk := ho.current_observes k l hx hobs
    rw [hc] at hk
    exact hne (Option.some.inj hk)
  · exact hf l₀

theorem Ordered.nobody_of_none (ho : h.Ordered) (hc : h.current = none) :
    ∀ l ∈ h.lives, l.state.isObserving = false := by
  intro l hl
  obtain ⟨k, hk⟩ := List.getElem?_of_mem hl
  apply Bool.eq_false_iff.2
  intro hobs
  have := ho.current_observes k l hk hobs
  rw [hc] at this
  cases this

/-- Where nobody observes the queue, nobody may wait. -/
theorem paired_of_nobody (hlt : ∀ g, h.current = some g → g < h.lives.length)
    (hc : ∀ l ∈ h.lives, l.Consistent) (hn : ∀ l ∈ h.lives, l.state.isObserving = false)
    (hw : h.waiters = []) (he : h.failure = none → ∀ l ∈ h.lives, l.state ≠ .errored) :
    h.Paired := by
  refine ⟨⟨hlt, ?_, hc⟩, ?_, ?_, he⟩
  · intro k l hk hobs
    rw [hn l (List.mem_of_getElem? hk)] at hobs
    cases hobs
  · intro l hl hobs
    rw [hn l hl] at hobs
    cases hobs
  · exact fun hne => (hne hw).elim

/-- After a failure nobody waits, and nobody observes the queue. -/
theorem Paired.nobody_of_failure (hp : h.Paired) (hf : h.failure ≠ none) :
    (∀ l ∈ h.lives, l.state.isObserving = false) ∧ h.waiters = [] := by
  have hn : ∀ l ∈ h.lives, l.state.isObserving = false := by
    intro l hl
    apply Bool.eq_false_iff.2
    intro hobs
    exact hf (hp.awaited l hl hobs).1
  refine ⟨hn, ?_⟩
  apply Classical.byContradiction
  intro hw
  obtain ⟨l, hl, hobs⟩ := hp.observed hw
  rw [hn l hl] at hobs
  cases hobs

/-! The harness ends. -/

theorem Ordered.setException {e : HarnessError} (ho : h.Ordered) :
    (h.changeLife g (·.setException e)).Ordered := by
  refine ho.changeLife (fun l _ hl => hl.setException) ?_
  intro l _ hobs
  rw [Lifecycle.setException_state] at hobs
  cases hobs

theorem Ordered.stop (ho : h.Ordered) : (h.changeLife g (·.stop)).Ordered := by
  refine ho.changeLife (fun l _ hl => hl.stop) ?_
  intro l _ hobs
  rw [Lifecycle.stop_not_observing] at hobs
  cases hobs

/-- A failure ends all waits, and the observing with them. -/
theorem Ordered.paired_fail {e : HarnessError} (ho : h.Ordered)
    (hp : h.failure ≠ none → h.Paired) : (h.fail e).Paired := by
  rw [fail]
  cases hf : h.failure with
  | some e' =>
    refine hp ?_
    rw [hf]
    exact Option.some_ne_none e'
  | none =>
    cases hc : h.current with
    | none =>
      obtain ⟨waits, heq⟩ := shutDown_eq { h with failure := some e, current := none } (.error e)
      simp only [heq]
      exact paired_of_nobody (by simp) ho.consistent (ho.nobody_of_none hc) rfl (by simp)
    | some g =>
      obtain ⟨waits, heq⟩ := shutDown_eq
        { h.changeLife g (·.setException e) with failure := some e, current := none } (.error e)
      simp only [heq]
      have hn := ho.nobody_observes (f := (·.setException e)) hc fun l => by
        rw [Lifecycle.setException_state]
        rfl
      exact paired_of_nobody (by simp) ho.setException.consistent hn rfl (by simp)

theorem Paired.fail {e : HarnessError} (hp : h.Paired) : (h.fail e).Paired :=
  hp.toOrdered.paired_fail fun _ => hp

theorem Paired.failGeneration {e : HarnessError} (hp : h.Paired) :
    (h.failGeneration g e).Paired := by
  refine hp.toOrdered.setException.paired_fail fun hf => ?_
  -- The failure came before, so there is nobody left whose observing could end.
  obtain ⟨hn, hw⟩ := hp.nobody_of_failure hf
  refine paired_of_nobody hp.toOrdered.setException.current_lt
    hp.toOrdered.setException.consistent ?_ hw fun hnone => (hf hnone).elim
  intro l hl
  obtain ⟨k, hk⟩ := List.getElem?_of_mem hl
  obtain ⟨l₀, hx, hl₀⟩ := lives_of_changeLife hk
  rcases hl₀ with ⟨_, rfl⟩ | ⟨_, rfl⟩
  · exact hn l (List.mem_of_getElem? hx)
  · rw [Lifecycle.setException_state]
    rfl

theorem Paired.dispose (hp : h.Paired) : h.dispose.Paired := by
  rw [Harness.dispose]
  split
  · exact hp
  · cases hc : h.current with
    | none =>
      obtain ⟨waits, heq⟩ := shutDown_eq { h with failure := some .disposed } (.error .cancelled)
      simp only [heq]
      exact paired_of_nobody hp.current_lt hp.consistent (hp.nobody_of_none hc) rfl (by simp)
    | some g =>
      obtain ⟨waits, heq⟩ := shutDown_eq
        { h.changeLife g (·.stop) with failure := some .disposed } (.error .cancelled)
      simp only [heq]
      have hn := hp.nobody_observes (f := (·.stop)) hc fun l => Lifecycle.stop_not_observing
      exact paired_of_nobody hp.stop.current_lt hp.stop.consistent hn rfl (by simp)

theorem Paired.disposeIfUnowned (hp : h.Paired) : h.disposeIfUnowned.Paired := by
  rw [Harness.disposeIfUnowned]
  split
  · exact hp.dispose
  · exact hp

/-! A generation stops because nobody waits any more. -/

theorem Ordered.paired_stop (ho : h.Ordered) (hc : h.current = some g) (hw : h.waiters = [])
    (he : h.failure = none → ∀ l ∈ h.lives, l.state ≠ .errored) :
    (h.changeLife g (·.stop)).Paired := by
  have hn := ho.nobody_observes (f := (·.stop)) hc fun l => Lifecycle.stop_not_observing
  refine paired_of_nobody ho.stop.current_lt ho.stop.consistent hn hw fun hf l hl herr => ?_
  obtain ⟨k, hk⟩ := List.getElem?_of_mem hl
  obtain ⟨l₀, hx, hl₀⟩ := lives_of_changeLife hk
  refine he hf l₀ (List.mem_of_getElem? hx) ?_
  rcases hl₀ with ⟨_, rfl⟩ | ⟨_, rfl⟩
  · exact herr
  · exact Lifecycle.stop_errored herr

theorem Ordered.paired_stopIfIdle (ho : h.Ordered)
    (he : h.failure = none → ∀ l ∈ h.lives, l.state ≠ .errored)
    (hp : h.waiters ≠ [] → h.Paired) : h.stopIfIdle.Paired := by
  rw [stopIfIdle]
  split
  · next g hw hc => exact ho.paired_stop hc hw he
  · next hne =>
    by_cases hw : h.waiters = []
    · cases hc : h.current with
      | none => exact paired_of_nobody ho.current_lt ho.consistent (ho.nobody_of_none hc) hw he
      | some g => exact (hne g hw hc).elim
    · exact hp hw

/-- A waiter leaves; if it was the last one, the current generation stops. -/
theorem Paired.stopIfIdle_erase {p : Waiter M → Bool} (hp : h.Paired) :
    ({ h with waiters := h.waiters.eraseP p }).stopIfIdle.Paired := by
  have ho : ({ h with waiters := h.waiters.eraseP p } : Harness M).Ordered :=
    hp.toOrdered.congr rfl rfl
  refine ho.paired_stopIfIdle hp.unfailed fun hleft => hp.congr rfl rfl rfl ?_
  have hw : h.waiters ≠ [] := by
    intro hnil
    change h.waiters.eraseP p ≠ [] at hleft
    rw [hnil] at hleft
    exact hleft rfl
  exact iff_of_false hleft hw

/-! Deliveries are settled. -/

theorem Paired.ack (hp : h.Paired) (cfg : Setup M) (tag : Nat) : (h.ack cfg tag).1.Paired := by
  obtain ⟨broker, heq⟩ := ack_eq cfg h tag
  rw [heq]
  exact hp.quiet rfl

theorem Paired.nack (hp : h.Paired) (cfg : Setup M) (tag : Nat) (multiple : Bool) :
    (h.nack cfg tag multiple).1.Paired := by
  obtain ⟨broker, heq⟩ := nack_eq cfg h tag multiple
  rw [heq]
  exact hp.quiet rfl

theorem Paired.nackAll (hp : h.Paired) (cfg : Setup M) (rejects : List (Nat × Bool)) :
    (h.nackAll cfg rejects).1.Paired := by
  obtain ⟨broker, heq⟩ := nackAll_eq cfg h rejects
  rw [heq]
  exact hp.quiet rfl

theorem Paired.settle (hp : h.Paired) (tag : Nat) (settlement : Settlement) :
    (h.settle tag settlement).Paired := by
  obtain ⟨ledger, heq⟩ := settle_eq h tag settlement
  rw [heq]
  exact hp.quiet rfl

/-- The cancel of a generation that was to stop is confirmed. -/
theorem Paired.setComplete {consumer : String} {life : Lifecycle} (hp : h.Paired)
    (hc : (h.life g).setComplete consumer = (life, .ok ())) :
    (h.changeLife g fun _ => life).Paired := by
  obtain ⟨hs, hstop, herr⟩ := Lifecycle.setComplete_ok hc
  refine hp.changeLife ?_ ?_ ?_
  · intro l hl hcons
    rw [life_of_some hl] at hs hstop
    rw [Lifecycle.Consistent, hstop, hs]
    exact hcons
  · intro l hl
    rw [hs, life_of_some hl]
  · intro l hl he
    exact life_of_some hl ▸ herr he

theorem Paired.teardown (hp : h.Paired) : (h.teardown cfg g).Paired := by
  rw [Harness.teardown]
  split
  · next life e hc =>
    rw [Lifecycle.setComplete_error hc, changeLife_life (f := (·.setException e))]
    exact hp.failGeneration
  · next life hc =>
    have hdone : ({ h.changeLife g fun _ => life with
        ledger := h.ledger.teardown.2 } : Harness M).Paired :=
      (hp.setComplete hc).quiet rfl
    have hnack := hdone.nackAll cfg h.ledger.teardown.1.rejects
    simp only
    split
    · next h₁ hr =>
      rw [hr] at hnack
      refine hnack.changeLife (fun l _ hl => hl.signalStopped) ?_ ?_
      · intro l _
        rw [Lifecycle.signalStopped_state]
      · intro l _ he
        rw [Lifecycle.signalStopped_state] at he
        exact he
    · next h₁ e hr =>
      rw [hr] at hnack
      exact hnack.failGeneration

theorem Paired.confirm {c : Consumer Nat} (hp : h.Paired) : (h.confirm cfg c).Paired :=
  hp.teardown.quiet rfl

theorem Paired.rejectFailed {tag : Nat} (hp : h.Paired) : (h.rejectFailed cfg tag).Paired := by
  rw [Harness.rejectFailed]
  split
  · have hnack := (hp.settle tag .alreadyNacked).nack cfg tag false
    split
    · next h₁ hr =>
      rw [hr] at hnack
      exact hnack
    · next h₁ e hr =>
      rw [hr] at hnack
      exact hnack.fail
  · exact hp.settle tag .shouldNack

end Intercept.Harness
