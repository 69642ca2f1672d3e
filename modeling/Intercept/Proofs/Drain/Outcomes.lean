import Intercept.Proofs.Drain.Forgetting

/-! How the callers of a drain waiter fare: each cycle has one outcome, which is that of all who are
registered when it ends. -/
namespace Intercept.DrainWaiter
variable {w w' : DrainWaiter} {m : DrainMove} {o : DrainOutcome} {e : HarnessError} {id : String}
  {n k T : Nat} {queue : String} {timeout : Duration} {moves : Nat → DrainMove}
  {s : Nat → DrainWaiter}

theorem ticks_ofMillis (T : Nat) : (Duration.ofMillis T).ticks = T := by
  simp only [Duration.ofMillis, Duration.ticks]
  omega

/-! Ends of cycles. -/

/-- Why a cycle ends at a moment of a run: a poll is answered, or the deadline has come without any
answer that the queue is empty, or the waiter is dropped. -/
inductive Cause (queue : String) (timeout : Duration) (moves : Nat → DrainMove)
    (s : Nat → DrainWaiter) (n : Nat) : DrainOutcome → Prop
  | drained (m deadline : Nat) : InCycle moves s m n → moves n = .step →
    (s n).poller = .polling deadline (s n).clock (.ok 0) → Cause queue timeout moves s n (.ok ())
  | failed (m deadline : Nat) (e : BrokerError) : InCycle moves s m n → moves n = .step →
    (s n).poller = .polling deadline (s n).clock (.error e) →
    Cause queue timeout moves s n (.error (.transport e))
  | late (m : Nat) : InCycle moves s m n → moves n = .step →
    (s n).clock = (s m).clock + timeout.ticks →
    (∀ j, m < j → j ≤ n → moves j = .step → ¬ (s j).Answered (.ok 0)) →
    Cause queue timeout moves s n (.error (.queueNotDrained queue timeout.humanReadable))
  | dropped : moves n = .drop → Cause queue timeout moves s n (.error .cancelled)

/-- A poll of a poller that is not late is answered at its time. -/
theorem Timely.answered (ht : w.Timely) {result : Except BrokerError Nat}
    (ha : w.Answered result) : ∃ deadline, w.poller = .polling deadline w.clock result := by
  obtain ⟨deadline, answerAt, hp, ha⟩ := ha
  simp only [Timely, hp] at ht
  obtain rfl : answerAt = w.clock := by omega
  exact ⟨deadline, hp⟩

/-- A cycle in which the queue was found empty is over. -/
theorem Run.not_answered (hr : Run queue timeout moves s) {j : Nat} (hc : InCycle moves s k n)
    (hk : k < j) (hj : j < n) (hstep : moves j = .step) : ¬ (s j).Answered (.ok 0) := by
  intro ha
  have hdeadline := hc.deadline (j + 1) (Nat.lt_succ_of_lt hk) hj
  rw [hr.next, hstep, move, step_of_concludes (.drained ha), concluded_deadline] at hdeadline
  cases hdeadline

theorem Run.cause (hr : Run queue timeout moves s) (he : (s n).Ends (moves n) o) :
    Cause queue timeout moves s n o := by
  have ht := (hr.poised n).timely
  rcases he with ⟨hstep, hc⟩ | ⟨hdrop, _, rfl⟩
  · cases hc with
    | drained ha =>
      obtain ⟨deadline, hp⟩ := ht.answered ha
      have hdeadline : (s n).poller.deadline? = some deadline := by rw [hp]; rfl
      obtain ⟨m, hcycle, _⟩ := hr.inCycle hdeadline
      exact .drained m deadline hcycle hstep hp
    | failed e ha =>
      obtain ⟨deadline, hp⟩ := ht.answered ha
      have hdeadline : (s n).poller.deadline? = some deadline := by rw [hp]; rfl
      obtain ⟨m, hcycle, _⟩ := hr.inCycle hdeadline
      exact .failed m deadline e hcycle hstep hp
    | late deadline hdeadline hd hpolling _ =>
      obtain ⟨m, hcycle, hm⟩ := hr.inCycle hdeadline
      have hclock := ht.before_deadline hdeadline
      have houtcome : (s n).notDrained = .queueNotDrained queue timeout.humanReadable := by
        rw [notDrained, (hr.setup n).1, (hr.setup n).2]
      rw [houtcome]
      refine .late m hcycle hstep (by omega) fun j hj hjn hstepj => ?_
      rcases Nat.lt_or_eq_of_le hjn with hlt | rfl
      · exact hr.not_answered hcycle hj hlt hstepj
      · rintro ⟨d, answerAt, hp, ha⟩
        rw [hp] at hdeadline
        cases hdeadline
        exact Nat.not_lt.2 ha (hpolling answerAt _ hp)
  · exact .dropped hdrop

/-- Everybody registered is told of the end of a cycle. -/
theorem outcomes_of_ends (he : w.Ends m o) : (w.move m).registrations = [] ∧
    (w.move m).outcomes = w.outcomes ++ w.handed o := by
  rcases he with ⟨rfl, hc⟩ | ⟨rfl, hopen, rfl⟩
  · rw [move, step_of_concludes hc]
    exact ⟨concluded_registrations, concluded_outcomes⟩
  · rw [move, drop, if_neg (by simp [hopen])]
    exact ⟨rfl, rfl⟩

theorem outcomes_of_not_ends (h : ∀ outcome, ¬ w.Ends m outcome) :
    (w.move m).outcomes = w.outcomes := by
  cases books_move w m with
  | ended outcome he _ _ => exact absurd he (h outcome)
  | registered _ _ _ _ _ houtcomes => exact houtcomes
  | forgot _ _ _ houtcomes => exact houtcomes
  | kept _ _ _ houtcomes => exact houtcomes

/-! After the end of a cycle. -/

/-- A failure of the source is final: it stays, and no poll starts after it. -/
theorem failure_move (hi : w.Poised) (hf : w.failure = some e) (m : DrainMove) :
    (w.move m).failure = some e ∧ (w.move m).polls = w.polls := by
  have hended : w.poller = .ended := hi.ended.2 (.inr (by simp [hf]))
  cases m with
  | register id =>
    simp only [move, register_of_failed hf]
    split <;> exact ⟨hf, rfl⟩
  | step =>
    have hstep : w.step = w := by simp [step, hended]
    rw [move, hstep]
    exact ⟨hf, rfl⟩
  | tick =>
    simp only [move]
    split <;> exact ⟨hf, rfl⟩
  | drop =>
    simp only [move, drop]
    split <;> exact ⟨hf, rfl⟩
  | _ => exact ⟨hf, rfl⟩

theorem Run.failed_of_le (hr : Run queue timeout moves s) (hf : (s k).failure = some e)
    (hle : k ≤ n) : (s n).failure = some e ∧ (s n).polls = (s k).polls := by
  induction n with
  | zero =>
    obtain rfl := Nat.le_zero.1 hle
    exact ⟨hf, rfl⟩
  | succ n ih =>
    rcases Nat.lt_or_eq_of_le hle with hlt | rfl
    · obtain ⟨hfailure, hpolls⟩ := ih (Nat.le_of_lt_succ hlt)
      have hmove := failure_move (hr.poised n) hfailure (moves n)
      rw [hr.next]
      exact ⟨hmove.1, hmove.2.trans hpolls⟩
    · exact ⟨hf, rfl⟩

theorem failure_of_transport {e : BrokerError} (he : w.Ends m (.error (.transport e))) :
    (w.move m).failure = some (.transport e) := by
  rcases he with ⟨rfl, hc⟩ | ⟨_, _, h⟩
  · rw [move, step_of_concludes hc]
    rfl
  · cases h

/-- After the other ends the poller sleeps. -/
theorem asleep_of_ends (he : w.Ends m o) (ho : o = .ok () ∨ o = .error w.notDrained) :
    (w.move m).poller = .asleep := by
  rcases he with ⟨rfl, hc⟩ | ⟨_, _, rfl⟩
  · rw [move, step_of_concludes hc]
    rcases ho with rfl | rfl <;> rfl
  · simp [notDrained] at ho

theorem dropped_move (h : w.dropped = true) (m : DrainMove) : (w.move m).dropped = true := by
  cases m with
  | register id =>
    simp only [move, h, if_true]
  | step =>
    have hs := stepped_step w
    change w.step.dropped = true
    generalize w.step = w' at hs ⊢
    cases hs <;> simp [poll, h]
  | tick =>
    simp only [move]
    split <;> exact h
  | drop => simp [move, drop, h]
  | _ => exact h

/-- Who registers while the poller sleeps has a cycle started at once, unless the waiter is
dropped. -/
theorem Run.starts_at_once (hr : Run queue timeout moves s) (hk : (s k).Registers (moves k) id)
    (hp : (s k).poller = .asleep) (hn : k < n) : (s n).Roused (s k).clock ∨
      (∃ m, k < m ∧ m < n ∧ (s m).Starts (moves m) ∧ (s m).clock = (s k).clock) ∨
      (s n).dropped = true := by
  induction n with
  | zero => omega
  | succ n ih =>
    rcases Nat.lt_or_eq_of_le (Nat.le_of_lt_succ hn) with hlt | rfl
    · rcases ih hlt with hroused | ⟨m, hm⟩ | hdropped
      · rcases hroused.move (moves n) with hstays | hstarts | ⟨hdrop, _⟩
        · exact .inl (by rwa [hr.next])
        · exact .inr (.inl ⟨n, hlt, Nat.lt_succ_self n, hstarts, hroused.2.2.2⟩)
        · refine .inr (.inr ?_)
          rw [hr.next, hdrop, move, drop]
          split
          · next hd => exact hd
          · rfl
      · exact .inr (.inl ⟨m, hm.1, Nat.lt_succ_of_lt hm.2.1, hm.2.2⟩)
      · exact .inr (.inr (by rw [hr.next]; exact dropped_move hdropped _))
    · refine .inl ?_
      obtain ⟨hmove, hdropped, hfailure⟩ := hk
      rw [hr.next, hmove, move, if_neg (by simp [hdropped]), register_of_open hfailure]
      exact ⟨hp, rfl, by simp, rfl⟩

/-- How callers fare that register under different names, with a timeout of `T` milliseconds. A caller
has at most one outcome; as long as it cares and has none it is registered, for the timeout at most.
Everybody registered when a cycle ends has the outcome of that cycle, and there are no others: the
queue was found empty just then, the source failed just then, the timeout has passed since the cycle
started and the queue was not found empty in it, or the waiter is dropped. After a failure of the
source no poll starts and every later caller fails likewise; after the other ends a later caller has
a cycle started at once. Whether some callers care makes no difference to the others. -/
theorem outcomes_follow_cycles (hr : Run queue (.ofMillis T) moves s) (hd : Distinct moves) :
    (∀ k n id, (s k).Registers (moves k) id → k < n →
      ((s n).told id).length ≤ 1 ∧
      ((∀ j, k < j → j < n → moves j ≠ .forget id) → (s n).told id = [] →
        { id := id } ∈ (s n).registrations ∧ (s n).clock ≤ (s k).clock + T ∧
        ((s n).clock = (s k).clock + T → (s n).ready = true))) ∧
    (∀ n outcome, (s n).Ends (moves n) outcome →
      Cause queue (.ofMillis T) moves s n outcome ∧ (s (n + 1)).registrations = [] ∧
      (s (n + 1)).outcomes = (s n).outcomes ++ (s n).handed outcome) ∧
    (∀ n, (∀ outcome, ¬ (s n).Ends (moves n) outcome) → (s (n + 1)).outcomes = (s n).outcomes) ∧
    (∀ n e, (s n).Ends (moves n) (.error (.transport e)) → ∀ j, n < j →
      (s j).polls = (s (n + 1)).polls ∧
      ∀ id, (s j).register id = (s j, .error (.transport e))) ∧
    (∀ n outcome, (s n).Ends (moves n) outcome →
      outcome = .ok () ∨ outcome = .error (s n).notDrained → (s (n + 1)).poller = .asleep) ∧
    (∀ k n id, (s k).Registers (moves k) id → (s k).poller = .asleep → k < n →
      (s n).Roused (s k).clock ∨
      (∃ m, k < m ∧ m < n ∧ (s m).clock = (s k).clock ∧ (s (m + 1)).polls = (s m).polls + 1 ∧
        (s (m + 1)).poller.deadline? = some ((s k).clock + T)) ∨
      (s n).dropped = true) ∧
    (∀ p s', Run queue (.ofMillis T) (fun n => (moves n).without p) s' → s' 0 = s 0 → ∀ n,
      (s' n).clock = (s n).clock ∧ (s' n).poller = (s n).poller ∧ (s' n).polls = (s n).polls ∧
      (s' n).failure = (s n).failure ∧ ∀ id, p id = false → (s' n).told id = (s n).told id) := by
  have hticks : ∀ n, (s n).timeout.ticks = T := fun n => by rw [(hr.setup n).2, ticks_ofMillis]
  refine ⟨fun k n id hk hn => ⟨(hr.filed hd n).once id, fun hcares hnone => ?_⟩,
    fun n outcome he => ⟨hr.cause he, ?_⟩, fun n hends => ?_, fun n e he j hj => ?_,
    fun n outcome he ho => ?_, fun k n id hk hp hn => ?_, fun p s' hr' hstart n => ?_⟩
  · rcases hr.pending_or_told hd hk hn hcares with ⟨hmem, hserved⟩ | ⟨outcome, htold⟩
    · have hclock := hserved.clock_le (hr.poised n).timely
      rw [hticks] at hclock
      exact ⟨hmem, hclock⟩
    · rw [hnone] at htold
      cases htold
  · rw [hr.next]
    exact outcomes_of_ends he
  · rw [hr.next]
    exact outcomes_of_not_ends hends
  · have hfailure : (s (n + 1)).failure = some (.transport e) := by
      rw [hr.next]
      exact failure_of_transport he
    obtain ⟨hfailed, hpolls⟩ := hr.failed_of_le hfailure hj
    exact ⟨hpolls, fun id => register_of_failed hfailed⟩
  · rw [hr.next]
    exact asleep_of_ends he ho
  · refine (hr.starts_at_once hk hp hn).imp_right (Or.imp_left ?_)
    rintro ⟨m, hkm, hmn, hstarts, hclock⟩
    have hmove := starts_move hstarts
    rw [← hr.next, hticks, hclock] at hmove
    exact ⟨m, hkm, hmn, hclock, hmove.2, hmove.1⟩
  · have halike := hr.alike hr' hstart n
    exact ⟨halike.clock_eq, halike.poller_eq, halike.polls_eq, halike.failure_eq, halike.told⟩

/-- A cycle that two callers share comes to its deadline, the next finds the queue empty, and in the
third the source fails. -/
def threeCycles : List DrainMove :=
  [.register "first", .step, .register "second", .tick, .step, .tick, .tick, .step, .step,
    .register "third", .step, .step, .register "fourth", .step, .tick, .tick, .step,
    .register "fifth", .drop]

/-- A source that answers late, that is empty then, and that fails at last. -/
def threeAnswers : DepthSource :=
  .script [{ delay := 1, result := .ok 5 }, { result := .ok 0 }, { delay := 2, result := .error .closed }]

/-- The name under which a move of that schedule registers a caller. -/
def registering (n : Nat) : Option String :=
  match threeCycles.getD n .rest with
  | .register id => some id
  | _ => none

theorem distinct_threeCycles : Distinct fun n => threeCycles.getD n .rest := by
  intro j k id hj hk
  have hwithin : ∀ n, threeCycles.getD n .rest = .register id → n < threeCycles.length := by
    intro n hn
    by_cases hlt : n < threeCycles.length
    · exact hlt
    · simp [List.getD_eq_getElem?_getD, List.getElem?_eq_none (Nat.le_of_not_lt hlt)] at hn
  have hdistinct : ∀ j < threeCycles.length, ∀ k < threeCycles.length,
      registering j = registering k → registering j = none ∨ j = k := by decide
  have hname : ∀ n, threeCycles.getD n .rest = .register id → registering n = some id := by
    intro n hn
    rw [registering, hn]
  have hsame := hdistinct j (hwithin j hj) k (hwithin k hk) ((hname j hj).trans (hname k hk).symm)
  exact hsame.resolve_left (by simp [hname j hj])

/-- The run of that schedule. -/
def throughThreeCycles : Nat → DrainWaiter :=
  ({ queue := "orders", timeout := .ofMillis 3, source := threeAnswers } : DrainWaiter).after
    threeCycles

theorem three_cycles_ended :
    let moves := fun n => threeCycles.getD n .rest
    let s := throughThreeCycles
    Run "orders" (.ofMillis 3) moves s ∧ Distinct moves ∧
    ((s 19).told "first" = [.error (.queueNotDrained "orders" "3 milliseconds")] ∧
      (s 19).told "second" = [.error (.queueNotDrained "orders" "3 milliseconds")] ∧
      (s 19).told "third" = [.ok ()] ∧ (s 19).told "fourth" = [.error (.transport .closed)] ∧
      (s 19).told "fifth" = []) ∧
    Cause "orders" (.ofMillis 3) moves s 7 (.error (.queueNotDrained "orders" "3 milliseconds")) ∧
    (s 19).register "sixth" = (s 19, .error (.transport .closed)) := by
  have hr := @run_after "orders" (.ofMillis 3) threeAnswers threeCycles
  obtain ⟨_, hends, _, hfailed, _⟩ := outcomes_follow_cycles hr distinct_threeCycles
  have hlingers : (throughThreeCycles 7).poller = .lingering 3 := by cbv
  have hpolls : (throughThreeCycles 16).poller = .polling 6 5 (.error .closed) := rfl
  have hlate : (throughThreeCycles 7).Ends .step
      (.error (.queueNotDrained "orders" "3 milliseconds")) := by
    refine .inl ⟨rfl, .late 3 ?_ (by decide) ?_ ?_⟩
    · rw [hlingers]
      rfl
    · simp [hlingers]
    · simp [hlingers]
  have hfails : (throughThreeCycles 16).Ends .step (.error (.transport .closed)) :=
    .inl ⟨rfl, .failed .closed ⟨6, 5, hpolls, by decide⟩⟩
  refine ⟨hr, distinct_threeCycles, ?_, (hends 7 _ hlate).1, ?_⟩
  · exact ⟨rfl, rfl, rfl, rfl, rfl⟩
  · exact (hfailed 16 .closed hfails 19 (by decide)).2 "sixth"

end Intercept.DrainWaiter
