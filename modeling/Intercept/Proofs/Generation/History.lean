import Mathlib.Data.List.Destutter
import Intercept.Generation.Watch
import Intercept.Proofs.Generation.Frank

/-! What becomes of a consumer in any sequence of operations: it never goes back to an earlier state,
and each of its signals is resolved once. -/
namespace Intercept

namespace GenerationState

/-- The states in the order in which a consumer can pass through them. -/
def passage : List GenerationState := [initial, started, stopped, complete, errored]

/-- The place of a state in the passage. -/
def rank : GenerationState → Nat
  | initial => 0
  | started => 1
  | stopped => 2
  | complete => 3
  | errored => 4

theorem drop_passage (s : GenerationState) :
    passage.drop s.rank = s :: passage.drop (s.rank + 1) := by
  cases s <;> rfl

/-- No event leads back. -/
theorem rank_lt_of_on {s next : GenerationState} {event : GenerationEvent}
    (h : s.on event = .move next) : s.rank < next.rank := by
  cases s <;> cases event <;> cases h <;> decide

end GenerationState

namespace Lifecycle
variable {l l' : Lifecycle} {consumer : String} {op : LifecycleOp} {ops : List LifecycleOp}
  {kind : SignalKind} {r : Except HarnessError Unit}

/-- The consumer after each of the operations, and before the first. -/
def course (consumer : String) (l : Lifecycle) (ops : List LifecycleOp) : List Lifecycle :=
  ops.scanl (fun l op => (l.apply consumer op).1) l

/-- The consumer after all of the operations. -/
def after (consumer : String) (l : Lifecycle) (ops : List LifecycleOp) : Lifecycle :=
  ops.foldl (fun l op => (l.apply consumer op).1) l

@[simp] theorem after_nil : l.after consumer [] = l := rfl

theorem after_cons :
    l.after consumer (op :: ops) = (l.apply consumer op).1.after consumer ops := rfl

theorem after_append {more : List LifecycleOp} :
    l.after consumer (ops ++ more) = (l.after consumer ops).after consumer more :=
  List.foldl_append

/-- A property that every operation keeps. -/
theorem after_induction {P : Lifecycle → Prop} (hl : P l)
    (hstep : ∀ l op, P l → P (l.apply consumer op).1) : P (l.after consumer ops) := by
  induction ops generalizing l with
  | nil => exact hl
  | cons op ops ih => exact ih (hstep l op hl)

/-! One operation. -/

theorem state_apply (l : Lifecycle) (consumer : String) (op : LifecycleOp) :
    (l.apply consumer op).1.state = l.state ∨
    ∃ event, l.state.on event = .move (l.apply consumer op).1.state := by
  obtain ⟨state, stopRequested, started, fullyStopped⟩ := l
  cases op with
  | setStarted => cases state <;> first | exact .inl rfl | exact .inr ⟨.start, rfl⟩
  | stop => cases state <;> first | exact .inl rfl | exact .inr ⟨.stop, rfl⟩
  | setComplete =>
    cases state <;> first | exact .inl rfl | exact .inr ⟨.complete, rfl⟩ | exact .inr ⟨.fail, rfl⟩
  | signalStopped => exact .inl signalStopped_state
  | setException e => cases state <;> first | exact .inl rfl | exact .inr ⟨.fail, rfl⟩

/-- A consumer that has failed stays as it is. -/
theorem apply_of_errored (h : l.state = .errored) : (l.apply consumer op).1 = l := by
  obtain ⟨state, stopRequested, started, fullyStopped⟩ := l
  cases h
  cases op <;> rfl

/-- A signal that was resolved stays as it was resolved. -/
theorem signal_apply (h : l.signal kind = .resolved r) :
    (l.apply consumer op).1.signal kind = .resolved r := by
  obtain ⟨state, stopRequested, started, fullyStopped⟩ := l
  cases kind <;> cases h <;> cases op <;> cases state <;> rfl

/-- What the state says about the request to stop and about the signals. -/
structure Coherent (l : Lifecycle) : Prop where
  consistent : l.Consistent
  unstarted : l.started = .pending ↔ l.state = .initial
  ahead : l.state = .initial ∨ l.state = .started ∨ l.state = .stopped → l.fullyStopped = .pending
  complete : l.state = .complete → l.fullyStopped = .pending ∨ l.fullyStopped = .resolved (.ok ())
  errored : l.state = .errored → l.fullyStopped ≠ .pending

theorem coherent_initial : ({} : Lifecycle).Coherent where
  consistent := rfl
  unstarted := ⟨fun _ => rfl, fun _ => rfl⟩
  ahead := fun _ => rfl
  complete := nofun
  errored := nofun

theorem Coherent.setStarted (h : l.Coherent) : l.setStarted.Coherent := by
  have hconsistent := h.consistent.setStarted
  have hahead := h.ahead
  obtain ⟨state, stopRequested, started, fullyStopped⟩ := l
  cases state with
  | initial =>
    refine ⟨hconsistent, ⟨fun hp => ?_, nofun⟩, fun _ => hahead (.inl rfl), nofun, nofun⟩
    cases started <;> cases hp
  | started | stopped | complete | errored => exact h

theorem Coherent.stop (h : l.Coherent) : l.stop.Coherent := by
  have hconsistent := h.consistent.stop
  have hahead := h.ahead
  have hunstarted := h.unstarted
  obtain ⟨state, stopRequested, started, fullyStopped⟩ := l
  cases state with
  | initial =>
    refine ⟨hconsistent, ⟨fun hp => ?_, nofun⟩, fun _ => hahead (.inl rfl), nofun, nofun⟩
    cases started <;> cases hp
  | started =>
    refine ⟨hconsistent, ⟨fun hp => ?_, nofun⟩, fun _ => hahead (.inr (.inl rfl)), nofun, nofun⟩
    cases hunstarted.1 hp
  | stopped | complete | errored => exact h

theorem Coherent.setException {e : HarnessError} (h : l.Coherent) : (l.setException e).Coherent := by
  by_cases hs : l.state = .errored
  · rw [setException_of_errored hs]
    exact h
  · have hconsistent := h.consistent.setException (e := e)
    rw [setException_eq hs] at hconsistent ⊢
    refine ⟨hconsistent, ⟨fun hp => ?_, nofun⟩, nofun, nofun, fun _ hp => ?_⟩
    · cases hst : l.started <;> simp [hst] at hp
    · cases hst : l.fullyStopped <;> simp [hst] at hp

theorem Coherent.setComplete (h : l.Coherent) : (l.setComplete consumer).1.Coherent := by
  cases hs : l.state with
  | initial | started =>
    rw [Lifecycle.setComplete, hs]
    exact h.setException
  | stopped =>
    have hpending := h.ahead (.inr (.inr hs))
    have hunstarted := h.unstarted
    have hconsistent := h.consistent
    rw [Consistent, hs] at hconsistent
    rw [Lifecycle.setComplete, hs]
    refine ⟨hconsistent, ⟨fun hp => ?_, fun hstate => ?_⟩, fun _ => hpending,
      fun _ => .inl hpending, fun herr => ?_⟩
    · rw [hs] at hunstarted
      cases hunstarted.1 hp
    · cases hstate
    · cases herr
  | complete | errored =>
    rw [Lifecycle.setComplete, hs]
    exact h

theorem Coherent.signalStopped (h : l.Coherent) : l.signalStopped.Coherent := by
  rw [Lifecycle.signalStopped]
  split
  · next hs =>
    refine ⟨h.consistent, h.unstarted, fun hahead => ?_, fun _ => .inr ?_, fun herr => ?_⟩
    · simp [hs] at hahead
    · obtain hp | hp := h.complete hs
      · simp [hp]
      · simp [hp]
    · rw [hs] at herr
      cases herr
  · exact h

theorem Coherent.apply (h : l.Coherent) : (l.apply consumer op).1.Coherent := by
  cases op with
  | setStarted => exact h.setStarted
  | stop => exact h.stop
  | setComplete => exact h.setComplete
  | signalStopped => exact h.signalStopped
  | setException e => exact h.setException

/-- To confirm the cancel of a consumer that was not stopped is an error, and nothing else is. -/
theorem setComplete_error_iff {e : HarnessError} : (l.setComplete consumer).2 = .error e ↔
    (l.state = .initial ∨ l.state = .started) ∧ e = cancelledByBroker consumer l.state := by
  rw [setComplete]
  cases l.state <;> simp [GenerationState.on, eq_comm]

/-- Only one operation announces that the rejects went out. -/
theorem announces_of_ok (h : (l.apply consumer op).1.fullyStopped = .resolved (.ok ())) :
    l.fullyStopped = .resolved (.ok ()) ∨ op = .signalStopped ∧ l.state = .complete := by
  obtain ⟨state, stopRequested, started, fullyStopped⟩ := l
  cases fullyStopped with
  | resolved r =>
    left
    rw [← h]
    have hkept : (Lifecycle.apply ⟨state, stopRequested, started, .resolved r⟩ consumer op).1.signal
        .fullyStopped = .resolved r := signal_apply rfl
    exact hkept.symm
  | pending =>
    right
    cases op <;> cases state <;> cases h
    exact ⟨rfl, rfl⟩

/-- A failure reaches exactly the signals that were pending. -/
theorem setException_signal {e : HarnessError} (hs : l.state ≠ .errored) :
    (l.setException e).state = .errored ∧
      (l.setException e).signal kind = (l.signal kind).resolve (.error e) := by
  rw [setException_eq hs]
  cases kind <;> exact ⟨rfl, rfl⟩

/-! Sequences of operations. -/

theorem coherent_after : (({} : Lifecycle).after consumer ops).Coherent :=
  after_induction coherent_initial fun _ _ h => h.apply

theorem signal_after (h : l.signal kind = .resolved r) :
    (l.after consumer ops).signal kind = .resolved r :=
  after_induction (P := fun l => l.signal kind = .resolved r) h fun _ _ h => signal_apply h

theorem after_of_errored (h : l.state = .errored) : l.after consumer ops = l := by
  induction ops with
  | nil => rfl
  | cons op ops ih => rw [after_cons, apply_of_errored h, ih]

/-- The states that a consumer goes through are some of the passage, in its order. -/
theorem states_ascend (l : Lifecycle) (ops : List LifecycleOp) :
    (((l.course consumer ops).map (·.state)).destutter (· ≠ ·)).Sublist
      (GenerationState.passage.drop l.state.rank) := by
  induction ops generalizing l with
  | nil =>
    rw [GenerationState.drop_passage]
    exact List.singleton_sublist.2 List.mem_cons_self
  | cons op ops ih =>
    have hcourse : l.course consumer (op :: ops) =
        l :: (l.apply consumer op).1.course consumer ops := List.scanl_cons
    have hih := ih (l.apply consumer op).1
    have hhead : ∃ rest, (l.apply consumer op).1.course consumer ops =
        (l.apply consumer op).1 :: rest := by
      cases ops with
      | nil => exact ⟨[], List.scanl_nil⟩
      | cons op' ops => exact ⟨_, List.scanl_cons⟩
    obtain ⟨rest, hrest⟩ := hhead
    rw [hcourse, hrest, List.map_cons, List.map_cons, List.destutter_cons', List.destutter'_cons]
    rw [hrest, List.map_cons, List.destutter_cons'] at hih
    split
    · next hne =>
      have hlt : l.state.rank < (l.apply consumer op).1.state.rank := by
        obtain heq | ⟨event, hmove⟩ := state_apply l consumer op
        · exact (hne heq.symm).elim
        · exact GenerationState.rank_lt_of_on hmove
      rw [GenerationState.drop_passage]
      exact (hih.trans (List.drop_sublist_drop_left _ hlt)).cons_cons _
    · next heq =>
      rw [← not_not.1 heq] at hih
      exact hih

/-- Those who wait for the rejects are told that they went out exactly if that was announced while
the consumer was complete. -/
theorem fullyStopped_ok_iff :
    (({} : Lifecycle).after consumer ops).fullyStopped = .resolved (.ok ()) ↔
      ∃ before rest, ops = before ++ .signalStopped :: rest ∧
        (({} : Lifecycle).after consumer before).state = .complete := by
  constructor
  · intro h
    induction ops using List.reverseRecOn with
    | nil => cases h
    | append_singleton ops op ih =>
      rw [after_append] at h
      obtain hbefore | ⟨rfl, hstate⟩ := announces_of_ok h
      · obtain ⟨before, rest, rfl, hstate⟩ := ih hbefore
        exact ⟨before, rest ++ [op], by simp, hstate⟩
      · exact ⟨ops, [], rfl, hstate⟩
  · rintro ⟨before, rest, rfl, hstate⟩
    have hcoherent : (({} : Lifecycle).after consumer before).Coherent := coherent_after
    rw [after_append, after_cons]
    change (after consumer _ rest).signal .fullyStopped = _
    apply signal_after
    generalize ({} : Lifecycle).after consumer before = l at hstate hcoherent
    change l.signalStopped.fullyStopped = _
    rw [signalStopped, if_pos hstate]
    obtain hp | hp := hcoherent.complete hstate
    · simp [hp]
    · simp [hp]

end Lifecycle
end Intercept
