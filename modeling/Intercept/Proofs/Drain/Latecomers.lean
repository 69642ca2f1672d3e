import Intercept.Proofs.Drain.Pace

/-! Callers that register while a cycle goes on. The deadline of a cycle counts from the caller that it
was started for, so one that joins it later is told of the deadline before its own time is over. -/
namespace Intercept

/-- The name under which a move registers a caller. -/
def DrainMove.registers? : DrainMove → Option String
  | register id => some id
  | _ => none

namespace DrainWaiter
variable {w w' : DrainWaiter} {m : DrainMove} {o : DrainOutcome} {id : String}
  {first k n T : Nat} {queue : String} {timeout : Duration} {moves : Nat → DrainMove}
  {s : Nat → DrainWaiter}

/-- With this move the caller of that name is told an outcome. -/
def Tells (s : Nat → DrainWaiter) (n : Nat) (id : String) (o : DrainOutcome) : Prop :=
  (s n).told id = [] ∧ (s (n + 1)).told id = [o]

/-- The caller that registered with move `k` is registered, together with the one that registered with
move `first` and found the poller asleep and nobody registered. Since then no cycle has ended. -/
structure Joined (moves : Nat → DrainMove) (s : Nat → DrainWaiter) (first k n : Nat)
    (id : String) : Prop where
  le : first ≤ k
  lt : k < n
  registers : (s k).Registers (moves k) id
  opens : ∃ opener, (s first).Registers (moves first) opener
  asleep : (s first).poller = .asleep
  nobody : (s first).registrations = []
  goesOn : ∀ j, first < j → j < n → ∀ outcome, ¬ (s j).Ends (moves j) outcome

/-! Who is registered. -/

theorem Joined.succ (hj : Joined moves s first k n id)
    (hends : ∀ outcome, ¬ (s n).Ends (moves n) outcome) : Joined moves s first k (n + 1) id := by
  refine ⟨hj.le, Nat.lt_succ_of_lt hj.lt, hj.registers, hj.opens, hj.asleep, hj.nobody, ?_⟩
  intro j hfirst hjn
  obtain hlt | rfl := Nat.lt_succ_iff_lt_or_eq.1 hjn
  · exact hj.goesOn j hfirst hlt
  · exact hends

/-- Somebody else registers and is served with those who are registered. -/
theorem Joined.join {other : String} (hj : Joined moves s first k n other)
    (hregisters : (s n).Registers (moves n) id) : Joined moves s first n (n + 1) id := by
  have hends : ∀ outcome, ¬ (s n).Ends (moves n) outcome := fun _ =>
    not_ends_of_other (by simp [hregisters.1]) (by simp [hregisters.1])
  exact { hj.succ hends with
    le := Nat.le_of_lt (Nat.lt_of_le_of_lt hj.le hj.lt)
    lt := Nat.lt_succ_self n
    registers := hregisters }

/-- Who finds nobody registered finds the poller asleep. -/
theorem Run.asleep_of_nobody (hr : Run queue timeout moves s)
    (hregisters : (s n).Registers (moves n) id) (hnobody : (s n).registrations = []) :
    (s n).poller = .asleep := by
  have hidle : (s n).poller.deadline? = none := by
    cases hd : (s n).poller.deadline? with
    | none => rfl
    | some deadline =>
      obtain ⟨m, hc, _⟩ := hr.inCycle hd
      exact absurd hnobody (hr.registered_of_inCycle hc)
  cases hp : (s n).poller with
  | asleep => rfl
  | ended =>
    have hover := (hr.poised n).ended.1 hp
    simp [hregisters.2.1, hregisters.2.2] at hover
  | _ =>
    rw [hp] at hidle
    cases hidle

theorem Run.joined (hr : Run queue timeout moves s) (hid : id ∈ (s n).ids) :
    ∃ first k, Joined moves s first k n id := by
  induction n generalizing id with
  | zero =>
    obtain ⟨source, hstart⟩ := hr.start
    rw [hstart] at hid
    cases hid
  | succ n ih =>
    have hstays : (∀ outcome, ¬ (s n).Ends (moves n) outcome) → id ∈ (s n).ids →
        ∃ first k, Joined moves s first k (n + 1) id := by
      intro hends hold
      obtain ⟨first, k, hj⟩ := ih hold
      exact ⟨first, k, hj.succ hends⟩
    rw [hr.next] at hid
    cases books_move (s n) (moves n) with
    | ended outcome _ hnobody _ =>
      rw [ids, hnobody] at hid
      cases hid
    | registered x hm hdropped hfailure hregs _ =>
      have hregisters : (s n).Registers (moves n) x := ⟨hm, hdropped, hfailure⟩
      rw [ids, hregs, List.map_append] at hid
      obtain hold | hnew := List.mem_append.1 hid
      · exact hstays (fun _ => not_ends_of_other (by simp [hm]) (by simp [hm])) hold
      · obtain rfl : id = x := List.mem_singleton.1 hnew
        cases hothers : (s n).registrations with
        | nil =>
          exact ⟨n, n, Nat.le_refl n, Nat.lt_succ_self n, hregisters, ⟨id, hregisters⟩,
            hr.asleep_of_nobody hregisters hothers, hothers, fun j hj hjn => by omega⟩
        | cons r others =>
          have hr' : r.id ∈ (s n).ids := by simp [ids, hothers]
          obtain ⟨first, k, hj⟩ := ih hr'
          exact ⟨first, n, hj.join hregisters⟩
    | forgot x hm hregs _ =>
      have hids : ((s n).move (moves n)).ids = (s n).ids := by rw [hm, move, ids_forget]
      exact hstays (fun _ => not_ends_of_other (by simp [hm]) (by simp [hm])) (hids ▸ hid)
    | kept hends _ hregs _ =>
      rw [ids, hregs] at hid
      exact hstays hends hid

/-- Who is told an outcome was registered until the cycle ended. -/
theorem Run.ends_of_tells (hr : Run queue timeout moves s) (hd : Distinct moves)
    (ht : Tells s n id o) : (s n).Ends (moves n) o ∧ id ∈ (s n).ids := by
  obtain ⟨hnone, htold⟩ := ht
  rw [hr.next] at htold
  cases books_move (s n) (moves n) with
  | ended outcome he _ houtcomes =>
    rw [told_of_ended (hr.filed hd n).apart houtcomes, hnone, List.nil_append] at htold
    split at htold
    · next hmem =>
      cases htold
      exact ⟨he, mem_ids_of_registered hmem⟩
    · cases htold
  | registered _ _ _ _ _ houtcomes | forgot _ _ _ houtcomes | kept _ _ _ houtcomes =>
    rw [told_of_outcomes houtcomes, hnone] at htold
    cases htold

/-! When the cycle ends. -/

/-- From the first registration on the poller is about to wake, or in the cycle that it started
then. -/
theorem Run.on_schedule (hr : Run queue timeout moves s)
    (hregisters : (s first).Registers (moves first) id) (hasleep : (s first).poller = .asleep)
    (hn : first < n) (hgoes : ∀ j, first < j → j < n → ∀ outcome, ¬ (s j).Ends (moves j) outcome) :
    (s n).Roused (s first).clock ∨
      (s n).poller.deadline? = some ((s first).clock + timeout.ticks) := by
  induction n, hn using Nat.le_induction with
  | base =>
    obtain ⟨hm, hdropped, hfailure⟩ := hregisters
    refine .inl ?_
    rw [hr.next, hm, move, if_neg (by simp [hdropped]), register_of_open hfailure]
    exact ⟨hasleep, rfl, by simp, rfl⟩
  | succ n hn ih =>
    rw [hr.next]
    have hends := hgoes n hn (Nat.lt_succ_self n)
    obtain hroused | hdeadline := ih fun j hj hjn => hgoes j hj (Nat.lt_succ_of_lt hjn)
    · obtain hstays | hstarts | hdrop := hroused.move (moves n)
      · exact .inl hstays
      · refine .inr ?_
        rw [(starts_move hstarts).1, hroused.2.2.2, (hr.setup n).2]
      · exact absurd (.inr ⟨hdrop.1, hdrop.2, rfl⟩) (hends (.error .cancelled))
    · exact .inr (deadline_of_not_ends hdeadline hends)

theorem Joined.on_schedule (hj : Joined moves s first k n id) (hr : Run queue timeout moves s)
    {j : Nat} (hfirst : first < j) (hjn : j ≤ n) : (s j).Roused (s first).clock ∨
      (s j).poller.deadline? = some ((s first).clock + timeout.ticks) := by
  obtain ⟨opener, hopener⟩ := hj.opens
  refine hr.on_schedule hopener hj.asleep hfirst fun i hi hij => ?_
  exact hj.goesOn i hi (Nat.lt_of_lt_of_le hij hjn)

/-- The first of those who are served together registered first. -/
theorem Joined.clock_le (hj : Joined moves s first k n id) (hr : Run queue timeout moves s) :
    (s first).clock ≤ (s k).clock ∧
      ((s k).poller = .asleep → (s k).clock = (s first).clock) := by
  obtain hlt | rfl := Nat.lt_or_eq_of_le hj.le
  · obtain hroused | hdeadline := hj.on_schedule hr hlt (Nat.le_of_lt hj.lt)
    · have hclock := hroused.2.2.2
      exact ⟨Nat.le_of_eq hclock.symm, fun _ => hclock⟩
    · have hclock := (hr.poised k).timely.before_deadline hdeadline
      rw [(hr.setup k).2] at hclock
      refine ⟨by omega, fun hasleep => ?_⟩
      rw [hasleep] at hdeadline
      cases hdeadline
  · exact ⟨Nat.le_refl _, fun _ => rfl⟩

/-- Their cycle comes to its deadline when the timeout of the first of them has passed. -/
theorem Joined.late (hj : Joined moves s first k n id) (hr : Run queue timeout moves s)
    (he : (s n).Ends (moves n) (.error (.queueNotDrained queue timeout.humanReadable))) :
    (s n).clock = (s first).clock + timeout.ticks := by
  cases hr.cause he with
  | late m hc _ hclock _ =>
    have hdeadline := hc.deadline n hc.lt (Nat.le_refl n)
    rw [(hr.setup m).2, ← hclock] at hdeadline
    obtain hroused | hschedule := hj.on_schedule hr (Nat.lt_of_le_of_lt hj.le hj.lt) (Nat.le_refl n)
    · rw [hroused.1] at hdeadline
      cases hdeadline
    · exact Option.some.inj (hdeadline.symm.trans hschedule)

/-- A caller that is told of the deadline, with a timeout of `T` milliseconds, is told so when these
have passed since the first of those who are served together registered, who found the poller
asleep. One that itself finds the poller asleep has its full timeout. One that joins others has it
only if it registers within the same millisecond as the first of them. -/
theorem timeout_counts_from_first (hr : Run queue (.ofMillis T) moves s) (hd : Distinct moves)
    (hk : (s k).Registers (moves k) id)
    (ht : Tells s n id (.error (.queueNotDrained queue (Duration.ofMillis T).humanReadable))) :
    ∃ first, Joined moves s first k n id ∧ (s n).clock = (s first).clock + T ∧
      (s first).clock ≤ (s k).clock ∧ ((s k).poller = .asleep → (s n).clock = (s k).clock + T) ∧
      ((s k).clock + T ≤ (s n).clock ↔ (s k).clock = (s first).clock) := by
  obtain ⟨he, hid⟩ := hr.ends_of_tells hd ht
  obtain ⟨first, k', hj⟩ := hr.joined hid
  obtain rfl : k = k' := hd k k' id hk.1 hj.registers.1
  have hlate := hj.late hr he
  rw [ticks_ofMillis] at hlate
  obtain ⟨hle, hasleep⟩ := hj.clock_le hr
  exact ⟨first, hj, hlate, hle, fun h => by rw [hlate, hasleep h], by omega⟩

/-- A schedule that names each caller once. -/
theorem distinct_of_nodup {schedule : List DrainMove}
    (h : (schedule.filterMap DrainMove.registers?).Nodup) :
    Distinct fun n => schedule.getD n .rest := by
  have hget : ∀ n id, schedule.getD n .rest = .register id →
      ∃ hn : n < schedule.length, schedule[n] = .register id := by
    intro n id hn
    rw [List.getD_eq_getElem?_getD] at hn
    by_cases hlt : n < schedule.length
    · rw [List.getElem?_eq_getElem hlt] at hn
      exact ⟨hlt, hn⟩
    · rw [List.getElem?_eq_none (Nat.le_of_not_lt hlt)] at hn
      cases hn
  have hapart : ∀ j k id, j < k → schedule.getD j .rest = .register id →
      schedule.getD k .rest ≠ .register id := by
    intro j k id hlt hj hk
    obtain ⟨hjlen, hj⟩ := hget j id hj
    obtain ⟨hklen, hk⟩ := hget k id hk
    have hpair := List.pairwise_iff_getElem.1 (List.pairwise_filterMap.1 h) j k hjlen hklen hlt
    exact hpair id (by rw [hj]; rfl) id (by rw [hk]; rfl) rfl
  intro j k id hj hk
  obtain hlt | heq | hlt := Nat.lt_trichotomy j k
  · exact absurd hk (hapart j k id hlt hj)
  · exact heq
  · exact absurd hj (hapart k j id hlt hk)

/-- A caller that registers a millisecond before the deadline of another one. -/
def latecomer : List DrainMove :=
  [.register "first", .step, .step, .tick, .tick, .register "second", .tick, .step]

/-- The run of that schedule on a queue that stays full. -/
def throughLatecomer : Nat → DrainWaiter :=
  ({ queue := "orders", timeout := .ofMillis 3, source := .script [{ result := .ok 5 }] } :
    DrainWaiter).after latecomer

theorem run_latecomer : Run "orders" (.ofMillis 3) (fun n => latecomer.getD n .rest)
    throughLatecomer := run_after

theorem distinct_latecomer : Distinct fun n => latecomer.getD n .rest :=
  distinct_of_nodup (by decide)

theorem latecomer_registers :
    (throughLatecomer 5).Registers (latecomer.getD 5 .rest) "second" := ⟨rfl, rfl, rfl⟩

theorem latecomer_told : Tells throughLatecomer 7 "second"
    (.error (.queueNotDrained "orders" (Duration.ofMillis 3).humanReadable)) := ⟨rfl, rfl⟩

theorem latecomer_waits_with_first :
    ∃ first, Joined (fun n => latecomer.getD n .rest) throughLatecomer first 5 7 "second" ∧
      (throughLatecomer 7).clock = (throughLatecomer first).clock + 3 ∧
      (throughLatecomer 5).clock ≠ (throughLatecomer first).clock := by
  obtain ⟨first, hj, hclock, _, _, hfull⟩ := timeout_counts_from_first run_latecomer
    distinct_latecomer latecomer_registers latecomer_told
  exact ⟨first, hj, hclock, fun heq => absurd (hfull.2 heq) (by decide)⟩

/-- Not every caller that is told of the deadline has had its full timeout. -/
theorem latecomer_cut_short : ¬ ∀ queue T moves s k n id, 1 ≤ T →
    Run queue (.ofMillis T) moves s → Distinct moves → (s k).Registers (moves k) id →
    Tells s n id (.error (.queueNotDrained queue (Duration.ofMillis T).humanReadable)) →
    (s k).clock + T ≤ (s n).clock := by
  intro hfull
  have hwaited := hfull "orders" 3 _ throughLatecomer 5 7 "second" (by decide) run_latecomer
    distinct_latecomer latecomer_registers latecomer_told
  exact absurd hwaited (by decide)

end DrainWaiter
end Intercept
