import Intercept.Proofs.Generation.Lifecycle

/-! What the signals of a consumer say about its state, and that none of them is taken back. -/
namespace Intercept

namespace OneShot
variable {α : Type} {s : OneShot α} {a b : α}

theorem resolve_of_resolved (h : s = resolved a) : s.resolve b = resolved a := by
  rw [h, resolve_resolved]

end OneShot

namespace Lifecycle
variable {l l' l'' : Lifecycle} {e : HarnessError} {consumer : String}

/-- The signals agree with the state. -/
structure Signalled (l : Lifecycle) : Prop where
  unstarted : l.state = .initial → l.started = .pending
  started : l.state = .started → l.started = .resolved (.ok ())
  stopping : l.state = .initial ∨ l.state = .started ∨ l.state = .stopped → l.fullyStopped = .pending
  complete : l.state = .complete → l.fullyStopped = .resolved (.ok ())
  refused : ∀ e, l.started = .resolved (.error e) → e = .cancelled ∨ e.isTerminal = true
  failed : ∀ e, l.fullyStopped = .resolved (.error e) → e.isTerminal = true

theorem signalled_initial : ({} : Lifecycle).Signalled where
  unstarted := fun _ => rfl
  started := nofun
  stopping := fun _ => rfl
  complete := nofun
  refused := nofun
  failed := nofun

/-- What a consumer becomes in the course of its life. -/
structure Onward (l l' : Lifecycle) : Prop where
  started : ∀ r, l.started = .resolved r → l'.started = .resolved r
  fullyStopped : ∀ r, l.fullyStopped = .resolved r → l'.fullyStopped = .resolved r
  unstarted : l'.state = .initial → l.state = .initial
  observing : l'.state.isObserving = true → l.state.isObserving = true
  terminal : l.state.isTerminal = true → l'.state.isTerminal = true
  stopped : l.stopRequested = true → l'.stopRequested = true
  signalled : l.Signalled → l'.Signalled

theorem Onward.refl : l.Onward l := ⟨fun _ h => h, fun _ h => h, id, id, id, id, id⟩

theorem Onward.trans (h : l.Onward l') (h' : l'.Onward l'') : l.Onward l'' :=
  ⟨fun r hr => h'.started r (h.started r hr),
    fun r hr => h'.fullyStopped r (h.fullyStopped r hr), h.unstarted ∘ h'.unstarted,
    h.observing ∘ h'.observing, h'.terminal ∘ h.terminal, h'.stopped ∘ h.stopped,
    h'.signalled ∘ h.signalled⟩

theorem onward_setStarted : l.Onward l.setStarted := by
  obtain ⟨state, stopRequested, started, fullyStopped⟩ := l
  cases state with
  | initial =>
    refine ⟨fun r hr => OneShot.resolve_of_resolved hr, fun _ hr => hr, nofun, fun _ => rfl, nofun,
      id, ?_⟩
    intro hs
    obtain rfl : started = .pending := hs.unstarted rfl
    refine ⟨nofun, fun _ => rfl, fun _ => hs.stopping (.inl rfl), nofun, ?_, hs.failed⟩
    intro e he
    cases he
  | started | stopped | complete | errored => exact .refl

theorem onward_stop : l.Onward l.stop := by
  obtain ⟨state, stopRequested, started, fullyStopped⟩ := l
  cases state with
  | initial =>
    refine ⟨fun r hr => OneShot.resolve_of_resolved hr, fun _ hr => hr, nofun, nofun, nofun,
      fun _ => rfl, ?_⟩
    intro hs
    obtain rfl : started = .pending := hs.unstarted rfl
    refine ⟨nofun, nofun, fun _ => hs.stopping (.inl rfl), nofun, ?_, hs.failed⟩
    intro e he
    cases he
    exact .inl rfl
  | started =>
    refine ⟨fun _ hr => hr, fun _ hr => hr, nofun, nofun, nofun, fun _ => rfl, ?_⟩
    intro hs
    refine ⟨nofun, nofun, fun _ => hs.stopping (.inr (.inl rfl)), nofun, hs.refused, hs.failed⟩
  | stopped | complete | errored => exact .refl

theorem onward_setException (he : e.isTerminal = true) : l.Onward (l.setException e) := by
  have hsignals : ∀ {signal : Signal} {e' : HarnessError},
      signal.resolve (.error e) = .resolved (.error e') →
      signal = .resolved (.error e') ∨ e'.isTerminal = true := by
    intro signal e' heq
    cases signal with
    | pending =>
      cases heq
      exact .inr he
    | resolved r => exact .inl heq
  have key : l.state ≠ .errored → l.Onward (l.setException e) := by
    intro hs
    have heq : l.setException e = { l with
        state := .errored
        stopRequested := true
        started := l.started.resolve (.error e)
        fullyStopped := l.fullyStopped.resolve (.error e) } := by
      obtain ⟨state, stopRequested, started, fullyStopped⟩ := l
      cases state <;> first | rfl | exact (hs rfl).elim
    rw [heq]
    refine ⟨fun r hr => OneShot.resolve_of_resolved hr, fun r hr => OneShot.resolve_of_resolved hr,
      nofun, nofun, fun _ => rfl, fun _ => rfl, fun hl => ⟨nofun, nofun, by simp, nofun, ?_, ?_⟩⟩
    · intro e' he'
      rcases hsignals he' with he' | he'
      · exact hl.refused e' he'
      · exact .inr he'
    · intro e' he'
      rcases hsignals he' with he' | he'
      · exact hl.failed e' he'
      · exact he'
  by_cases hs : l.state = .errored
  · have heq : l.setException e = l := by rw [setException, hs]; rfl
    rw [heq]
    exact .refl
  · exact key hs

theorem stop_not_started : l.stop.state ≠ .started := by
  obtain ⟨state, stopRequested, started, fullyStopped⟩ := l
  cases state <;> exact GenerationState.noConfusion

theorem setComplete_not_started (hc : l.setComplete consumer = (l', .ok ())) :
    l'.state ≠ .started := by
  obtain ⟨state, stopRequested, started, fullyStopped⟩ := l
  cases state <;> cases hc <;> exact GenerationState.noConfusion

/-- A consumer hands its messages back. -/
theorem onward_handBack (hc : l.setComplete consumer = (l', .ok ())) :
    l.Onward l'.signalStopped := by
  obtain ⟨state, stopRequested, started, fullyStopped⟩ := l
  cases state with
  | initial | started => cases hc
  | stopped =>
    cases hc
    refine ⟨fun _ hr => hr, fun r hr => OneShot.resolve_of_resolved hr,
      (fun hs => by cases hs), (fun hs => by cases hs), fun _ => rfl, id, ?_⟩
    intro hs
    obtain rfl : fullyStopped = .pending := hs.stopping (.inr (.inr rfl))
    refine ⟨(fun hs => by cases hs), (fun hs => by cases hs), by simp [signalStopped],
      fun _ => rfl, hs.refused, ?_⟩
    intro e he
    cases he
  | complete =>
    cases hc
    refine ⟨fun _ hr => hr, fun r hr => OneShot.resolve_of_resolved hr,
      (fun hs => by cases hs), (fun hs => by cases hs), fun _ => rfl, id, ?_⟩
    intro hs
    obtain rfl : fullyStopped = .resolved (.ok ()) := hs.complete rfl
    exact hs
  | errored =>
    cases hc
    exact .refl

/-- It fails on the way. -/
theorem onward_handBack_fails (he : e.isTerminal = true)
    (hc : l.setComplete consumer = (l', .ok ())) : l.Onward (l'.setException e) := by
  obtain ⟨state, stopRequested, started, fullyStopped⟩ := l
  cases state with
  | initial | started => cases hc
  | stopped =>
    cases hc
    exact onward_setException (l := ⟨.stopped, stopRequested, started, fullyStopped⟩) he
  | complete | errored =>
    cases hc
    exact onward_setException he

/-- A consumer that fails on the way has not handed its messages back. -/
theorem handBack_fails_quiet (hc : l.setComplete consumer = (l', .ok ())) :
    (l'.setException e).fullyStopped = .resolved (.ok ()) → l.fullyStopped = .resolved (.ok ()) := by
  obtain ⟨state, stopRequested, started, fullyStopped⟩ := l
  cases state <;> cases hc <;> cases fullyStopped <;> intro hs <;> first | exact hs | cases hs

end Lifecycle
end Intercept
