import Intercept.Proofs.Generation.Lifecycle

/-! Whoever waits for the start of a consumer learns the truth: an error other than a cancelled wait
means that the consumer has failed, and no consumer leaves its first state without an answer. -/
namespace Intercept.Lifecycle
variable {l l' l'' : Lifecycle} {e : HarnessError} {consumer : String}

/-- The answer to those who wait for the start agrees with the state. -/
structure Frank (l : Lifecycle) : Prop where
  unanswered : l.started = .pending → l.state = .initial
  blamed : ∀ e, l.started = .resolved (.error e) → e = .cancelled ∨ l.state = .errored

theorem frank_initial : ({} : Lifecycle).Frank := ⟨fun _ => rfl, nofun⟩

/-- What a consumer keeps as it gets older. -/
structure Ages (l l' : Lifecycle) : Prop where
  started : ∀ r, l.started = .resolved r → l'.started = .resolved r
  stopped : l.stopRequested = true → l'.stopRequested = true
  errored : l.state = .errored → l'.state = .errored
  frank : l.Frank → l'.Frank

theorem Ages.refl : l.Ages l := ⟨fun _ h => h, id, id, id⟩

theorem Ages.trans (h : l.Ages l') (h' : l'.Ages l'') : l.Ages l'' :=
  ⟨fun r hr => h'.started r (h.started r hr), h'.stopped ∘ h.stopped, h'.errored ∘ h.errored,
    h'.frank ∘ h.frank⟩

theorem ages_setStarted : l.Ages l.setStarted := by
  obtain ⟨state, stopRequested, started, fullyStopped⟩ := l
  cases state with
  | initial =>
    refine ⟨fun r hr => ?_, id, nofun, fun hl => ⟨fun hp => ?_, fun e he => ?_⟩⟩
    · cases hr
      rfl
    · cases started <;> cases hp
    · cases started with
      | pending => cases he
      | resolved r =>
        obtain rfl | herr := hl.blamed e he
        · exact .inl rfl
        · cases herr
  | started | stopped | complete | errored => exact .refl

theorem ages_stop : l.Ages l.stop := by
  obtain ⟨state, stopRequested, started, fullyStopped⟩ := l
  cases state with
  | initial =>
    refine ⟨fun r hr => ?_, fun _ => rfl, nofun, fun hl => ⟨fun hp => ?_, fun e he => ?_⟩⟩
    · cases hr
      rfl
    · cases started <;> cases hp
    · cases started with
      | pending =>
        cases he
        exact .inl rfl
      | resolved r =>
        obtain rfl | herr := hl.blamed e he
        · exact .inl rfl
        · cases herr
  | started =>
    refine ⟨fun _ hr => hr, fun _ => rfl, nofun, fun hl => ⟨fun hp => ?_, fun e he => ?_⟩⟩
    · cases hl.unanswered hp
    · obtain rfl | herr := hl.blamed e he
      · exact .inl rfl
      · cases herr
  | stopped | complete | errored => exact .refl

theorem setException_of_errored (h : l.state = .errored) : l.setException e = l := by
  rw [setException, h]
  rfl

theorem setException_eq (h : l.state ≠ .errored) : l.setException e =
    { l with
      state := .errored
      stopRequested := true
      started := l.started.resolve (.error e)
      fullyStopped := l.fullyStopped.resolve (.error e) } := by
  obtain ⟨state, stopRequested, started, fullyStopped⟩ := l
  cases state <;> first | rfl | exact (h rfl).elim

theorem ages_setException : l.Ages (l.setException e) := by
  by_cases hs : l.state = .errored
  · rw [setException_of_errored hs]
    exact .refl
  · rw [setException_eq hs]
    refine ⟨fun r hr => ?_, fun _ => rfl, fun _ => rfl, fun _ => ⟨fun hp => ?_, fun _ _ => .inr rfl⟩⟩
    · simp only [hr, OneShot.resolve_resolved]
    · cases hst : l.started <;> simp [hst] at hp

/-- A consumer that has failed has an answer, which is the error unless there was one before. -/
theorem setException_answers (hl : l.Frank) (hp : l.started = .pending) :
    (l.setException e).started = .resolved (.error e) := by
  have hs : l.state ≠ .errored := by
    rw [hl.unanswered hp]
    exact GenerationState.noConfusion
  rw [setException_eq hs]
  simp only [hp, OneShot.resolve_pending]

theorem stop_answers (hl : l.Frank) (hp : l.started = .pending) :
    l.stop.started = .resolved (.error .cancelled) := by
  have hs := hl.unanswered hp
  rw [stop, hs]
  simp only [GenerationState.on, if_pos, hp, OneShot.resolve_pending]

theorem ages_setComplete (hc : l.setComplete consumer = (l', .ok ())) :
    l.Ages l' ∧ l'.started = l.started := by
  obtain ⟨state, stopRequested, started, fullyStopped⟩ := l
  cases state with
  | initial | started => cases hc
  | stopped =>
    cases hc
    refine ⟨⟨fun _ hr => hr, id, nofun, fun hl => ⟨fun hp => ?_, fun e he => ?_⟩⟩, rfl⟩
    · cases hl.unanswered hp
    · obtain rfl | herr := hl.blamed e he
      · exact .inl rfl
      · cases herr
  | complete | errored =>
    cases hc
    exact ⟨.refl, rfl⟩

theorem signalStopped_started : l.signalStopped.started = l.started := by
  rw [signalStopped]
  split <;> rfl

theorem ages_signalStopped : l.Ages l.signalStopped := by
  rw [signalStopped]
  split
  · exact ⟨fun _ hr => hr, id, id, fun hl => ⟨hl.unanswered, hl.blamed⟩⟩
  · exact .refl

end Intercept.Lifecycle
