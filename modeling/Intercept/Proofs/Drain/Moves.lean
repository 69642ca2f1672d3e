import Intercept.Drain.Waiter

/-! What happens to a drain waiter, one move after the other. -/
namespace Intercept

/-- What may happen to a drain waiter. -/
inductive DrainMove where
  /-- A caller registers, unless the waiter was dropped. -/
  | register (id : String)
  /-- A caller no longer cares for its outcome. -/
  | forget (id : String)
  /-- The source changes, in whatever way. -/
  | feed (source : DepthSource)
  /-- The poller takes a step, if it is ready. -/
  | step
  /-- A millisecond passes, unless the poller is ready. -/
  | tick
  | drop
  | rest

/-- The deadline of the cycle that the poller is in. -/
def Poller.deadline? : Poller → Option Nat
  | polling deadline _ _ => some deadline
  | pausing deadline _ => some deadline
  | lingering deadline => some deadline
  | asleep => none
  | ended => none

namespace DrainWaiter
variable {w w' : DrainWaiter} {m : DrainMove} {o : DrainOutcome} {id : String} {steps : Nat}

/-- The waiter after a move. Nothing happens if the move is not possible. -/
def move (w : DrainWaiter) : DrainMove → DrainWaiter
  | .register id => if w.dropped then w else (w.register id).1
  | .forget id => w.forget id
  | .feed source => { w with source }
  | .step => w.step
  | .tick => if w.ready then w else { w with clock := w.clock + 1 }
  | .drop => w.drop
  | .rest => w

/-- The waiter at the end of a cycle. -/
def concluded (w : DrainWaiter) : DrainOutcome → DrainWaiter
  | .error (.transport e) =>
    { w.handOut (.error (.transport e)) with
      poller := .ended
      failure := some (.transport e) }
  | outcome => w.endCycle outcome

/-- A poll was answered. -/
def Answered (w : DrainWaiter) (result : Except BrokerError Nat) : Prop :=
  ∃ deadline answerAt, w.poller = .polling deadline answerAt result ∧ answerAt ≤ w.clock

/-- How a cycle ends: the queue is empty, the source fails, or the deadline has come. -/
inductive Concludes (w : DrainWaiter) : DrainOutcome → Prop
  | drained : w.Answered (.ok 0) → Concludes w (.ok ())
  | failed (e : BrokerError) : w.Answered (.error e) → Concludes w (.error (.transport e))
  | late (deadline : Nat) : w.poller.deadline? = some deadline → deadline ≤ w.clock →
    (∀ answerAt result, w.poller = .polling deadline answerAt result → w.clock < answerAt) →
    (∀ wakeAt, w.poller ≠ .pausing deadline wakeAt) → Concludes w (.error w.notDrained)

/-- What a step of the poller does. -/
inductive Stepped (w : DrainWaiter) : DrainWaiter → Prop
  | rests : w.ready = false → Stepped w w
  /-- There was nothing to wake up for. -/
  | dozes : w.poller = .asleep → w.permit = true → w.registrations = [] →
    Stepped w { w with permit := false }
  | starts : w.poller = .asleep → w.permit = true → w.registrations ≠ [] →
    Stepped w (({ w with permit := false } : DrainWaiter).poll (w.clock + w.timeout.ticks))
  | pauses (deadline answerAt depth : Nat) : w.poller = .polling deadline answerAt (.ok depth) →
    answerAt ≤ w.clock → depth ≠ 0 → w.clock + pollPause depth < deadline →
    Stepped w { w with poller := .pausing deadline (w.clock + pollPause depth) }
  | lingers (deadline answerAt depth : Nat) : w.poller = .polling deadline answerAt (.ok depth) →
    answerAt ≤ w.clock → depth ≠ 0 → deadline ≤ w.clock + pollPause depth →
    Stepped w { w with poller := .lingering deadline }
  | polls (deadline wakeAt : Nat) : w.poller = .pausing deadline wakeAt → wakeAt ≤ w.clock →
    Stepped w (w.poll deadline)
  | ends (outcome : DrainOutcome) : w.Concludes outcome → Stepped w (w.concluded outcome)

theorem stepped_answered {deadline answerAt : Nat} {result : Except BrokerError Nat}
    (hp : w.poller = .polling deadline answerAt result) (ha : answerAt ≤ w.clock) :
    w.Stepped (w.answered deadline result) := by
  cases result with
  | error e => exact .ends _ (.failed e ⟨_, _, hp, ha⟩)
  | ok depth =>
    cases depth with
    | zero => exact .ends _ (.drained ⟨_, _, hp, ha⟩)
    | succ depth =>
      simp only [answered]
      split
      · next h => exact .lingers _ _ _ hp ha (Nat.succ_ne_zero depth) h
      · next h => exact .pauses _ _ _ hp ha (Nat.succ_ne_zero depth) (Nat.lt_of_not_le h)

theorem stepped_step (w : DrainWaiter) : w.Stepped w.step := by
  unfold step
  split
  · next hp =>
    split
    · next hpermit =>
      simp only [wake]
      split
      · next hnobody => exact .dozes hp hpermit (List.isEmpty_iff.1 hnobody)
      · next hsome => exact .starts hp hpermit fun h => hsome (List.isEmpty_iff.2 h)
    · next hpermit => exact .rests (by simpa [ready, hp] using hpermit)
  · next deadline answerAt result hp =>
    split
    · next ha => exact stepped_answered hp ha
    · next ha =>
      split
      · next hd =>
        refine .ends (.error w.notDrained) (.late deadline (by rw [hp]; rfl) hd ?_ (by simp [hp]))
        intro answerAt' result' hp'
        rw [hp] at hp'
        cases hp'
        exact Nat.lt_of_not_le ha
      · next hd => exact .rests (by simp [ready, hp]; omega)
  · next deadline wakeAt hp =>
    split
    · next hwake => exact .polls deadline wakeAt hp hwake
    · next hwake => exact .rests (by simpa [ready, hp] using hwake)
  · next deadline hp =>
    split
    · next hd => exact .ends (.error w.notDrained) (.late deadline (by rw [hp]; rfl) hd
        (by simp [hp]) (by simp [hp]))
    · next hd => exact .rests (by simpa [ready, hp] using hd)
  · next hp => exact .rests (by simp [ready, hp])

/-- A caller registers and wakes the poller. -/
theorem register_of_open (hf : w.failure = none) : w.register id =
    ({ w with registrations := w.registrations ++ [{ id := id }], permit := true }, .ok ()) := by
  unfold register
  split
  · next h =>
    rw [hf] at h
    cases h
  · rfl

/-- After a failure of the source, a caller is told of it at once. -/
theorem register_of_failed {e : HarnessError} (hf : w.failure = some e) :
    w.register id = (w, .error e) := by
  unfold register
  split
  · next h =>
    rw [hf] at h
    cases h
    rfl
  · next h =>
    rw [hf] at h
    cases h

/-! A waiter at rest. -/

/-- How many steps the poller takes at most before it has to wait. -/
def patience (w : DrainWaiter) : Nat :=
  (match w.poller with
    | .asleep => 0
    | .polling _ _ _ => 2
    | .pausing _ wakeAt => if wakeAt ≤ w.clock then 3 else 0
    | .lingering _ => 1
    | .ended => 0) + 3 * w.permit.toNat

theorem pollPause_pos (depth : Nat) : 0 < pollPause depth := by
  unfold pollPause
  split <;> omega

theorem ready_of_patience (h : w.patience = 0) : w.ready = false := by
  have hpermit : w.permit = false := by
    cases hp : w.permit with
    | false => rfl
    | true => simp [patience, hp] at h
  unfold patience at h
  unfold ready
  split <;> simp_all

theorem patience_concluded : (w.concluded o).patience = 3 * w.permit.toNat := by
  unfold concluded
  split <;> simp [patience, endCycle, handOut]

/-- A cycle that ends was polling or lingering. -/
theorem Concludes.patience_pos (h : w.Concludes o) :
    3 * w.permit.toNat < w.patience := by
  unfold patience
  cases h with
  | drained ha =>
    obtain ⟨deadline, answerAt, hp, _⟩ := ha
    simp [hp]
  | failed e ha =>
    obtain ⟨deadline, answerAt, hp, _⟩ := ha
    simp [hp]
  | late deadline hp _ _ hpausing =>
    cases hpoller : w.poller with
    | polling d a r => simp
    | lingering d => simp
    | pausing d wakeAt =>
      rw [hpoller] at hp
      cases hp
      exact absurd hpoller (hpausing wakeAt)
    | _ =>
      rw [hpoller] at hp
      cases hp

theorem patience_step (h : w.ready = true) : w.step.patience < w.patience := by
  have hs := stepped_step w
  generalize w.step = w' at hs ⊢
  cases hs with
  | rests hr => simp [h] at hr
  | dozes hp hpermit _ => simp [patience, hp, hpermit]
  | starts hp hpermit _ => simp [patience, hp, hpermit, poll]
  | pauses deadline answerAt depth hp _ _ _ =>
    have hlater : ¬ w.clock + pollPause depth ≤ w.clock := by
      have := pollPause_pos depth
      omega
    simp [patience, hp, hlater]
  | lingers deadline answerAt depth hp _ _ _ => simp [patience, hp]
  | polls deadline wakeAt hp hwake =>
    simp only [patience, hp, hwake, if_true, poll]
    omega
  | ends outcome hc =>
    rw [patience_concluded]
    exact hc.patience_pos

theorem run_rests (h : w.patience ≤ steps) : (w.run steps).ready = false := by
  induction steps generalizing w with
  | zero => exact ready_of_patience (Nat.le_zero.1 h)
  | succ steps ih =>
    simp only [run]
    split
    · next hr =>
      have := patience_step hr
      exact ih (by omega)
    · next hr => exact Bool.eq_false_iff.2 hr

/-- However the poller stands, it settles until it has to wait. -/
theorem settle_rests (w : DrainWaiter) : w.settle.ready = false := by
  refine run_rests ?_
  have hpermit : w.permit.toNat ≤ 1 := Bool.toNat_le w.permit
  unfold patience
  split
  case h_3 => split <;> omega
  all_goals omega

/-! Runs. -/

/-- The waiter goes through the states `s` by way of the moves. -/
structure Run (queue : String) (timeout : Duration) (moves : Nat → DrainMove)
    (s : Nat → DrainWaiter) : Prop where
  start : ∃ source, s 0 = { queue, timeout, source }
  next : ∀ n, s (n + 1) = (s n).move (moves n)

/-- The waiter after the first moves of a schedule, at the end of which it rests. -/
def after (w : DrainWaiter) (schedule : List DrainMove) (n : Nat) : DrainWaiter :=
  (schedule.take n).foldl move w

theorem after_succ {schedule : List DrainMove} {n : Nat} :
    w.after schedule (n + 1) = (w.after schedule n).move (schedule.getD n .rest) := by
  rw [after, List.take_add_one, List.foldl_append, List.getD_eq_getElem?_getD, after]
  cases schedule[n]? <;> rfl

theorem run_after {queue : String} {timeout : Duration} {source : DepthSource}
    {schedule : List DrainMove} : Run queue timeout (fun n => schedule.getD n .rest)
      (({ queue, timeout, source } : DrainWaiter).after schedule) :=
  ⟨⟨source, rfl⟩, fun _ => after_succ⟩

/-- The poller settles step by step. -/
theorem run_eq_foldl (w : DrainWaiter) (steps : Nat) :
    ∃ schedule : List DrainMove, w.run steps = schedule.foldl move w := by
  induction steps generalizing w with
  | zero => exact ⟨[], rfl⟩
  | succ steps ih =>
    simp only [run]
    split
    · obtain ⟨schedule, h⟩ := ih w.step
      exact ⟨.step :: schedule, h⟩
    · exact ⟨[], rfl⟩

/-- Time passes millisecond by millisecond, in each of which the poller settles. -/
theorem advance_eq_foldl (hr : w.ready = false) (ms : Nat) :
    ∃ schedule : List DrainMove, w.advance ms = schedule.foldl move w ∧
      (w.advance ms).ready = false := by
  induction ms generalizing w with
  | zero => exact ⟨[], rfl, hr⟩
  | succ ms ih =>
    obtain ⟨settling, hsettle⟩ := run_eq_foldl { w with clock := w.clock + 1 } 7
    have htick : w.tick = (DrainMove.tick :: settling).foldl move w := by
      rw [List.foldl_cons, move, if_neg (by simp [hr]), ← hsettle]
      rfl
    obtain ⟨schedule, hadvance, hrests⟩ := ih (settle_rests { w with clock := w.clock + 1 })
    refine ⟨.tick :: settling ++ schedule, ?_, hrests⟩
    rw [List.foldl_append, ← htick]
    exact hadvance

end DrainWaiter
end Intercept
