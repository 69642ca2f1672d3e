import Intercept.Generation.Lifecycle

/-! Which events end the observing of a queue. A stop is requested exactly when it has ended. -/
namespace Intercept

/-- Whether a consumer in this state observes the queue, or will once it has subscribed. -/
def GenerationState.isObserving : GenerationState → Bool
  | initial | started => true
  | _ => false

theorem GenerationState.isObserving_iff {s : GenerationState} :
    s.isObserving = true ↔ s = .initial ∨ s = .started := by
  cases s <;> simp [isObserving]

namespace Lifecycle
variable {l l' : Lifecycle} {e : HarnessError} {consumer : String}

/-- Routing goes on exactly as long as the queue is to be observed. -/
def Consistent (l : Lifecycle) : Prop := l.stopRequested = !l.state.isObserving

theorem consistent_initial : ({} : Lifecycle).Consistent := rfl

theorem Consistent.observing (h : l.Consistent) (hs : l.stopRequested ≠ true) :
    l.state.isObserving = true := by
  rw [Consistent] at h
  rw [h] at hs
  cases hobs : l.state.isObserving with
  | false =>
    rw [hobs] at hs
    exact (hs rfl).elim
  | true => rfl

theorem setStarted_isObserving : l.setStarted.state.isObserving = l.state.isObserving := by
  obtain ⟨state, stopRequested, started, fullyStopped⟩ := l
  cases state <;> rfl

theorem Consistent.setStarted (h : l.Consistent) : l.setStarted.Consistent := by
  obtain ⟨state, stopRequested, started, fullyStopped⟩ := l
  cases state <;> exact h

theorem setStarted_errored (h : l.setStarted.state = .errored) : l.state = .errored := by
  obtain ⟨state, stopRequested, started, fullyStopped⟩ := l
  cases state <;> first | exact h | cases h

theorem stop_not_observing : l.stop.state.isObserving = false := by
  obtain ⟨state, stopRequested, started, fullyStopped⟩ := l
  cases state <;> rfl

theorem stop_state (h : l.state.isObserving = true) : l.stop.state = .stopped := by
  obtain ⟨state, stopRequested, started, fullyStopped⟩ := l
  cases state <;> first | rfl | cases h

theorem Consistent.stop (h : l.Consistent) : l.stop.Consistent := by
  obtain ⟨state, stopRequested, started, fullyStopped⟩ := l
  cases state <;> first | exact h | rfl

theorem stop_errored (h : l.stop.state = .errored) : l.state = .errored := by
  obtain ⟨state, stopRequested, started, fullyStopped⟩ := l
  cases state <;> first | exact h | cases h

theorem setException_state : (l.setException e).state = .errored := by
  obtain ⟨state, stopRequested, started, fullyStopped⟩ := l
  cases state <;> rfl

theorem Consistent.setException (h : l.Consistent) : (l.setException e).Consistent := by
  obtain ⟨state, stopRequested, started, fullyStopped⟩ := l
  cases state <;> first | exact h | rfl

theorem signalStopped_state : l.signalStopped.state = l.state := by
  rw [signalStopped]
  split <;> rfl

theorem Consistent.signalStopped (h : l.Consistent) : l.signalStopped.Consistent := by
  rw [Lifecycle.signalStopped]
  split <;> exact h

/-- A cancel that somebody asked for changes neither whether the queue is observed nor whether the
consumer has failed. -/
theorem setComplete_ok (h : l.setComplete consumer = (l', .ok ())) :
    l'.state.isObserving = l.state.isObserving ∧ l'.stopRequested = l.stopRequested ∧
      (l'.state = .errored → l.state = .errored) := by
  obtain ⟨state, stopRequested, started, fullyStopped⟩ := l
  cases state <;> cases h <;> exact ⟨rfl, rfl, fun he => by cases he; try rfl⟩

theorem setComplete_stopped (h : l.state = .stopped) :
    ∃ l', l.setComplete consumer = (l', .ok ()) ∧ l'.state = .complete := by
  rw [setComplete, h]
  exact ⟨_, rfl, rfl⟩

theorem setComplete_error (h : l.setComplete consumer = (l', .error e)) :
    l' = l.setException e := by
  obtain ⟨state, stopRequested, started, fullyStopped⟩ := l
  cases state <;> cases h <;> rfl

end Lifecycle
end Intercept
