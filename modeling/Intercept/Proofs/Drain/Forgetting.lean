import Intercept.Proofs.Drain.Waits

/-! A caller that no longer cares for its outcome makes no difference to anybody else. -/
namespace Intercept

/-- A move, or nothing if it is that some of the callers no longer care. -/
def DrainMove.without (p : String → Bool) : DrainMove → DrainMove
  | forget id => if p id then rest else forget id
  | m => m

namespace DrainWaiter
variable {w w' : DrainWaiter} {m : DrainMove} {o : DrainOutcome} {p : String → Bool} {id : String} {n : Nat}
  {queue : String} {timeout : Duration} {moves : Nat → DrainMove} {s s' : Nat → DrainWaiter}

/-- A registration, regardless of whether some of the callers care. -/
def blur (p : String → Bool) (r : DrainRegistration) : DrainRegistration :=
  if p r.id then { id := r.id } else r

/-- Two waiters differ at most in which of some callers care, and what these were told. -/
structure Alike (p : String → Bool) (w w' : DrainWaiter) : Prop where
  same : ({ w' with registrations := [], outcomes := [] } : DrainWaiter) =
    { w with registrations := [], outcomes := [] }
  registered : w'.registrations.map (blur p) = w.registrations.map (blur p)
  told : ∀ id, p id = false → w'.told id = w.told id

section
variable (ha : Alike p w w')
include ha

theorem Alike.queue_eq : w'.queue = w.queue := (congrArg DrainWaiter.queue ha.same :)
theorem Alike.timeout_eq : w'.timeout = w.timeout := (congrArg DrainWaiter.timeout ha.same :)
theorem Alike.clock_eq : w'.clock = w.clock := (congrArg DrainWaiter.clock ha.same :)
theorem Alike.poller_eq : w'.poller = w.poller := (congrArg DrainWaiter.poller ha.same :)
theorem Alike.permit_eq : w'.permit = w.permit := (congrArg DrainWaiter.permit ha.same :)
theorem Alike.failure_eq : w'.failure = w.failure := (congrArg DrainWaiter.failure ha.same :)
theorem Alike.polls_eq : w'.polls = w.polls := (congrArg DrainWaiter.polls ha.same :)
theorem Alike.dropped_eq : w'.dropped = w.dropped := (congrArg DrainWaiter.dropped ha.same :)

/-- Something else changes in the same way. -/
theorem Alike.change (f : DrainWaiter → DrainWaiter)
    (hf : ∀ v, (f v).registrations = v.registrations ∧ (f v).outcomes = v.outcomes ∧
      ({ f v with registrations := [], outcomes := [] } : DrainWaiter) =
        f { v with registrations := [], outcomes := [] }) : Alike p (f w) (f w') := by
  refine ⟨?_, ?_, fun id hid => ?_⟩
  · rw [(hf w').2.2, (hf w).2.2, ha.same]
  · rw [(hf w').1, (hf w).1, ha.registered]
  · rw [told_of_outcomes (hf w').2.1, told_of_outcomes (hf w).2.1, ha.told id hid]

theorem Alike.nobody : w'.registrations = [] ↔ w.registrations = [] := by
  have hlength := congrArg List.length ha.registered
  simp only [List.length_map] at hlength
  rw [← List.length_eq_zero_iff, hlength, List.length_eq_zero_iff]

/-- Whether another caller is registered, and cares. -/
theorem Alike.cares (hid : p id = false) :
    w'.registrations.filter (· = { id := id }) = w.registrations.filter (· = { id := id }) := by
  have hblur : ∀ l : List DrainRegistration,
      l.filter (· = { id := id }) = (l.map (blur p)).filter (· = { id := id }) := by
    intro l
    induction l with
    | nil => rfl
    | cons r rest ih =>
      rw [List.map_cons, List.filter_cons, List.filter_cons, ih]
      unfold blur
      cases hp : p r.id with
      | false => simp
      | true =>
        have hne : r.id ≠ id := fun heq => by simp [← heq, hp] at hid
        have hout : r ≠ { id := id } := fun heq => hne (congrArg _ heq)
        simp [hne, hout]
  rw [hblur w'.registrations, ha.registered, ← hblur]

theorem Alike.handOut (o : DrainOutcome) : Alike p (w.handOut o) (w'.handOut o) := by
  refine ⟨ha.same, rfl, fun id hid => ?_⟩
  have htold : ∀ v : DrainWaiter, (v.handOut o).told id =
      v.told id ++ ((v.registrations.filter (· = { id := id })).map fun _ => o) := by
    intro v
    have houtcomes : (v.handOut o).outcomes = v.outcomes ++ v.handed o := rfl
    rw [DrainWaiter.told, houtcomes, List.filter_append, List.map_append, handed_filter,
      List.map_map, DrainWaiter.told]
    rfl
  rw [htold, htold, ha.told id hid, ha.cares hid]

theorem Alike.poll (deadline : Nat) : Alike p (w.poll deadline) (w'.poll deadline) :=
  ha.change (·.poll deadline) fun _ => ⟨rfl, rfl, rfl⟩

theorem Alike.setPoller (poller : Poller) :
    Alike p { w with poller } { w' with poller } :=
  ha.change (fun v => { v with poller }) fun _ => ⟨rfl, rfl, rfl⟩

theorem Alike.wake : Alike p w.wake w'.wake := by
  have hpermit : Alike p { w with permit := false } { w' with permit := false } :=
    ha.change (fun v => { v with permit := false }) fun _ => ⟨rfl, rfl, rfl⟩
  have hnobody : w'.registrations.isEmpty = w.registrations.isEmpty := by
    rw [Bool.eq_iff_iff, List.isEmpty_iff, List.isEmpty_iff, ha.nobody]
  simp only [DrainWaiter.wake, hnobody, ha.clock_eq, ha.timeout_eq]
  split
  · simpa only [ha.clock_eq, ha.timeout_eq] using hpermit
  · simpa only [ha.clock_eq, ha.timeout_eq] using hpermit.poll (w.clock + w.timeout.ticks)

theorem Alike.endCycle (o : DrainOutcome) : Alike p (w.endCycle o) (w'.endCycle o) :=
  (ha.handOut o).setPoller .asleep

theorem Alike.answered (deadline : Nat) (result : Except BrokerError Nat) :
    Alike p (w.answered deadline result) (w'.answered deadline result) := by
  cases result with
  | error e =>
    exact ((ha.handOut _).setPoller .ended).change
      (fun v => { v with failure := some (.transport e) }) fun _ => ⟨rfl, rfl, rfl⟩
  | ok depth =>
    cases depth with
    | zero => exact ha.endCycle (.ok ())
    | succ depth =>
      have hpoller := ha.setPoller (if deadline ≤ w.clock + pollPause (depth + 1)
        then .lingering deadline else .pausing deadline (w.clock + pollPause (depth + 1)))
      simpa only [DrainWaiter.answered, ha.clock_eq] using hpoller

theorem Alike.step : Alike p w.step w'.step := by
  have hlate : w'.notDrained = w.notDrained := by
    rw [notDrained, notDrained, ha.queue_eq, ha.timeout_eq]
  simp only [DrainWaiter.step, ha.poller_eq, ha.permit_eq, ha.clock_eq, hlate]
  split
  · split
    · exact ha.wake
    · exact ha
  · next deadline answerAt result _ =>
    split
    · exact ha.answered deadline result
    · split
      · exact ha.endCycle _
      · exact ha
  · next deadline wakeAt _ =>
    split
    · exact ha.poll deadline
    · exact ha
  · split
    · exact ha.endCycle _
    · exact ha
  · exact ha

theorem Alike.ready_eq : w'.ready = w.ready := by
  rw [ready, ready, ha.poller_eq, ha.permit_eq, ha.clock_eq]

theorem Alike.register (id : String) : Alike p (w.register id).1 (w'.register id).1 := by
  cases hf : w.failure with
  | some e =>
    rw [register_of_failed hf, register_of_failed (ha.failure_eq.trans hf)]
    exact ha
  | none =>
    rw [register_of_open hf, register_of_open (ha.failure_eq.trans hf)]
    have hpermit : Alike p { w with permit := true } { w' with permit := true } :=
      ha.change (fun v => { v with permit := true }) fun _ => ⟨rfl, rfl, rfl⟩
    refine ⟨hpermit.same, ?_, hpermit.told⟩
    simp only [List.map_append, ha.registered]

theorem Alike.drop : Alike p w.drop w'.drop := by
  simp only [DrainWaiter.drop, ha.dropped_eq]
  split
  · exact ha
  · exact ((ha.handOut _).setPoller .ended).change (fun v => { v with dropped := true })
      fun _ => ⟨rfl, rfl, rfl⟩

end

theorem map_blur_forget (p : String → Bool) (w : DrainWaiter) (h : p id = true) :
    (w.forget id).registrations.map (blur p) = w.registrations.map (blur p) := by
  simp only [forget, List.map_map]
  refine List.map_congr_left fun r _ => ?_
  simp only [Function.comp_apply]
  split
  · next hid => simp [blur, hid, h]
  · rfl

/-- Another caller no longer cares. -/
theorem map_blur_forget_other (p : String → Bool) (w : DrainWaiter) (h : p id = false) :
    (w.forget id).registrations.map (blur p) = (w.registrations.map (blur p)).map fun r =>
      if r.id = id then { r with abandoned := true } else r := by
  simp only [DrainWaiter.forget, List.map_map]
  refine List.map_congr_left fun r _ => ?_
  simp only [Function.comp_apply]
  by_cases hid : r.id = id
  · simp [blur, hid, h]
  · have hblur : (blur p r).id ≠ id := by
      unfold blur
      split <;> exact hid
    rw [if_neg hid, if_neg hblur]

theorem Alike.forget (ha : Alike p w w') (id : String) : Alike p (w.forget id) (w'.forget id) := by
  refine ⟨ha.same, ?_, ha.told⟩
  cases hid : p id with
  | true => rw [map_blur_forget p w hid, map_blur_forget p w' hid, ha.registered]
  | false => rw [map_blur_forget_other p w hid, map_blur_forget_other p w' hid, ha.registered]

theorem Alike.move (ha : Alike p w w') (m : DrainMove) :
    Alike p (w.move m) (w'.move (m.without p)) := by
  cases m with
  | register id =>
    simp only [DrainMove.without, DrainWaiter.move, ha.dropped_eq]
    split
    · exact ha
    · exact ha.register id
  | forget id =>
    simp only [DrainMove.without]
    split
    · next hid => exact ⟨ha.same, (ha.registered.trans (map_blur_forget p w hid).symm), ha.told⟩
    · exact ha.forget id
  | feed source => exact ha.change (fun v => { v with source }) fun _ => ⟨rfl, rfl, rfl⟩
  | step => exact ha.step
  | tick =>
    simp only [DrainMove.without, DrainWaiter.move, ha.ready_eq]
    split
    · exact ha
    · exact ha.change (fun v => { v with clock := v.clock + 1 }) fun _ => ⟨rfl, rfl, rfl⟩
  | drop => exact ha.drop
  | rest => exact ha

/-- Whether some of the callers care makes no difference to the poller and to the other callers. -/
theorem Run.alike (hr : Run queue timeout moves s)
    (hr' : Run queue timeout (fun n => (moves n).without p) s') (hstart : s' 0 = s 0) (n : Nat) :
    Alike p (s n) (s' n) := by
  induction n with
  | zero =>
    rw [hstart]
    exact ⟨rfl, rfl, fun _ _ => rfl⟩
  | succ n ih =>
    rw [hr.next, hr'.next]
    exact ih.move (moves n)

end DrainWaiter
end Intercept
