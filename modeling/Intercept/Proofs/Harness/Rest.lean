import Intercept.Proofs.Harness.Clock

/-! A session comes to rest. Each turn but those of the first queue does some work, and nobody is kept
from going on by another task, so that the turns last until every task has to wait. -/
namespace Intercept
variable {M : Type}

namespace Harness
variable {cfg : Setup M} {P : Harness M → Prop} {h h' h'' : Harness M} {t : Task}

/-- All tasks that there are. -/
def tasks (h : Harness M) : List Task := ({ permits := 0 } : Harness M).spawned h

/-- No task goes away. -/
structure Expands (h h' : Harness M) : Prop where
  waits : h.waits.length ≤ h'.waits.length
  generations : h.generations.length ≤ h'.generations.length
  claims : h.claims.length ≤ h'.claims.length

theorem Expands.refl : h.Expands h := ⟨Nat.le_refl _, Nat.le_refl _, Nat.le_refl _⟩

theorem Expands.trans (hx : h.Expands h') (hx' : h'.Expands h'') : h.Expands h'' :=
  ⟨hx.waits.trans hx'.waits, hx.generations.trans hx'.generations, hx.claims.trans hx'.claims⟩

theorem range'_grown {m n : Nat} (hle : m ≤ n) :
    List.range' 0 (n - 0) = List.range' 0 (m - 0) ++ List.range' m (n - m) := by
  have happend : List.range' 0 m ++ List.range' (0 + m) (n - m) = List.range' 0 (m + (n - m)) :=
    List.range'_append_1
  rw [Nat.zero_add, Nat.add_sub_cancel' hle] at happend
  exact happend.symm

/-- The tasks are those of before and those that came into being. -/
theorem tasks_perm (hx : h.Expands h') : (h.tasks ++ h.spawned h').Perm h'.tasks := by
  rw [tasks, tasks, spawned, spawned, spawned]
  dsimp only [List.length_nil]
  rw [range'_grown hx.waits, range'_grown hx.generations, range'_grown hx.claims]
  rw [List.map_append, List.map_append, List.flatMap_append]
  apply List.perm_iff_count.2
  intro t
  simp only [List.count_append]
  omega

theorem tasks_nodup : h.tasks.Nodup := by
  have hwait : (fun i => Task.wait i).Injective := fun _ _ heq => Task.wait.inj heq
  have hgeneration : (fun g => Task.generation g).Injective := fun _ _ heq =>
    Task.generation.inj heq
  rw [tasks, spawned]
  apply List.Nodup.append
  · apply List.Nodup.append
    · exact (List.nodup_range' ..).map hwait
    · exact (List.nodup_range' ..).map hgeneration
    · intro t hw hg
      obtain ⟨i, _, rfl⟩ := List.mem_map.1 hw
      obtain ⟨g, _, hne⟩ := List.mem_map.1 hg
      cases hne
  · apply List.nodup_flatMap.2
    constructor
    · intro c _
      simp
    · refine (List.nodup_range' ..).imp fun {c d} hne => ?_
      intro t hc hd
      simp only [List.mem_cons, List.not_mem_nil, or_false] at hc hd
      rcases hc with rfl | rfl <;> rcases hd with heq | heq <;> cases heq <;> exact hne rfl
  · intro t hw hc
    obtain ⟨c, _, hc⟩ := List.mem_flatMap.1 hc
    simp only [List.mem_cons, List.not_mem_nil, or_false] at hc
    obtain hw | hw := List.mem_append.1 hw <;> obtain ⟨k, _, rfl⟩ := List.mem_map.1 hw <;>
      obtain heq | heq := hc <;> cases heq

/-- Who is ready is a task. -/
theorem mem_tasks (hr : h.isReady cfg t = true) : t ∈ h.tasks := by
  obtain ⟨h', hs⟩ := Option.isSome_iff_exists.1 hr
  exact mem_spawned hs

theorem isReady_false_iff : h.isReady cfg t = false ↔ h.step? cfg t = none := by
  rw [isReady, Option.isSome_eq_false_iff, Option.isNone_iff_eq_none]

/-- What every step of a task keeps. Each does some work, and keeps nobody else from going on. -/
structure Tame (cfg : Setup M) (P : Harness M → Prop) : Prop where
  keeps : ∀ {h h' t}, P h → h.step? cfg t = some h' → P h'
  grows : ∀ {h h' t}, P h → h.step? cfg t = some h' → h.Expands h'
  works : ∀ {h h' t}, P h → h.step? cfg t = some h' → h'.work cfg < h.work cfg
  spares : ∀ {h h' t t'}, P h → h.step? cfg t = some h' → t' ≠ t → h.isReady cfg t' = true →
    h'.isReady cfg t' = true

/-- What the steps keep may be narrowed down by something else that they keep. -/
theorem Tame.and {Q : Harness M → Prop} (ht : Tame cfg P)
    (hkeeps : ∀ {h h' t}, P h → Q h → h.step? cfg t = some h' → Q h') :
    Tame cfg fun h => P h ∧ Q h where
  keeps hp hs := ⟨ht.keeps hp.1 hs, hkeeps hp.1 hp.2 hs⟩
  grows hp := ht.grows hp.1
  works hp := ht.works hp.1
  spares hp := ht.spares hp.1

/-- What becomes of the harness while a task has its turn. -/
structure Polled (cfg : Setup M) (P : Harness M → Prop) (t : Task) (h h' : Harness M) : Prop where
  keeps : P h'
  grows : h.Expands h'
  spares : ∀ t', t' ≠ t → h.isReady cfg t' = true → h'.isReady cfg t' = true
  rests : h'.isReady cfg t = false
  works : h' = h ∧ h.isReady cfg t = false ∨ h'.work cfg < h.work cfg

/-- A task goes on until it has to wait. -/
theorem Tame.poll {steps : Nat} (ht : Tame cfg P) (hp : P h) (hle : h.work cfg ≤ steps) :
    Polled cfg P t h (h.poll cfg t steps) := by
  induction steps generalizing h with
  | zero =>
    have hrests : h.step? cfg t = none := by
      cases hs : h.step? cfg t with
      | none => rfl
      | some h' =>
        have hlt := ht.works hp hs
        omega
    exact ⟨hp, .refl, fun _ _ hr => hr, isReady_false_iff.2 hrests,
      .inl ⟨rfl, isReady_false_iff.2 hrests⟩⟩
  | succ steps ih =>
    rw [Harness.poll]
    cases hs : h.step? cfg t with
    | none =>
      dsimp only
      exact ⟨hp, .refl, fun _ _ hr => hr, isReady_false_iff.2 hs, .inl ⟨rfl, isReady_false_iff.2 hs⟩⟩
    | some h' =>
      have hlt := ht.works hp hs
      have hpolled := ih (ht.keeps hp hs) (by omega)
      dsimp only
      refine ⟨hpolled.keeps, (ht.grows hp hs).trans hpolled.grows, fun t' hne hr => ?_,
        hpolled.rests, .inr ?_⟩
      · exact hpolled.spares t' hne (ht.spares hp hs hne hr)
      · obtain ⟨heq, _⟩ | hless := hpolled.works
        · rw [heq]
          exact hlt
        · exact hless.trans hlt

end Harness

namespace Session
variable {cfg : Setup M} {P : Harness M → Prop} {s : Session M} {h : Harness M}
open Harness (Tame Expands)

/-- Every task has to wait. -/
structure Rests (cfg : Setup M) (P : Harness M → Prop) (s : Session M) : Prop where
  holds : P s.harness
  tasks : s.idle.Perm s.harness.tasks
  rests : ∀ t ∈ s.idle, s.harness.isReady cfg t = false

theorem Rests.idle (hr : s.Rests cfg P) (t : Task) : s.harness.step? cfg t = none := by
  apply Harness.isReady_false_iff.1
  cases hready : s.harness.isReady cfg t with
  | false => rfl
  | true =>
    have hwaits := hr.rests t (hr.tasks.mem_iff.2 (Harness.mem_tasks hready))
    rw [hready] at hwaits
    cases hwaits

/-- A turn of a task does some work, or it was one of those that need not have had a turn. -/
theorem countP_polled {t : Task} {queue woken : List Task} {h' : Harness M}
    (hpolled : Harness.Polled cfg P t h h') (hnodup : (t :: queue).Nodup)
    (hwoken : ∀ t ∈ woken, h'.isReady cfg t = true) :
    h'.work cfg + (queue ++ woken).countP (!h'.isReady cfg ·) <
      h.work cfg + (t :: queue).countP (!h.isReady cfg ·) := by
  have hnone : woken.countP (!h'.isReady cfg ·) = 0 := by
    apply List.countP_eq_zero.2
    intro t' ht'
    simp [hwoken t' ht']
  have hqueue : queue.countP (!h'.isReady cfg ·) ≤ queue.countP (!h.isReady cfg ·) := by
    apply List.countP_mono_left
    intro t' ht' hwaits
    have hne : t' ≠ t := by
      rintro rfl
      exact (List.nodup_cons.1 hnodup).1 ht'
    cases hready : h.isReady cfg t' with
    | false => rfl
    | true =>
      rw [hpolled.spares t' hne hready] at hwaits
      cases hwaits
  rw [List.countP_append, hnone, List.countP_cons]
  obtain ⟨rfl, hwaits⟩ | hless := hpolled.works
  · simp [hwaits]
  · omega

/-- With enough turns, the queue and those that are woken on the way come to rest. -/
theorem rests_run {turns : Nat} {queue : List Task} (ht : Tame cfg P) (hp : P s.harness)
    (htasks : (s.idle ++ queue).Perm s.harness.tasks)
    (hidle : ∀ t ∈ s.idle, s.harness.isReady cfg t = false)
    (hturns : s.harness.work cfg + queue.countP (!s.harness.isReady cfg ·) ≤ turns) :
    (run cfg turns queue s).Rests cfg P := by
  induction turns generalizing s queue with
  | zero =>
    cases queue with
    | nil =>
      rw [run]
      exact ⟨hp, by simpa using htasks, by simpa using hidle⟩
    | cons t queue =>
      rw [List.countP_cons] at hturns
      cases hready : s.harness.isReady cfg t with
      | false => simp [hready] at hturns
      | true =>
        obtain ⟨h', hs⟩ := Option.isSome_iff_exists.1 hready
        have hlt := ht.works hp hs
        omega
  | succ turns ih =>
    cases queue with
    | nil =>
      rw [run]
      · exact ⟨hp, by simpa using htasks, hidle⟩
    | cons t queue =>
      rw [run]
      have hpolled := @Tame.poll _ _ _ _ t _ ht hp (Nat.le_refl _)
      generalize s.harness.poll cfg t (s.harness.work cfg) = h' at hpolled
      rw [List.partition_eq_filter_filter]
      have hnodup := htasks.nodup_iff.2 Harness.tasks_nodup
      have hwoken : ∀ t' ∈ (s.idle ++ [t] ++ s.harness.spawned h').filter (h'.isReady cfg),
          h'.isReady cfg t' = true := fun t' ht' => (List.mem_filter.1 ht').2
      refine ih hpolled.keeps ?_ ?_ ?_
      · have hsplit := List.filter_append_perm (h'.isReady cfg)
          (s.idle ++ [t] ++ s.harness.spawned h')
        have hspawned : (s.idle ++ t :: queue ++ s.harness.spawned h').Perm h'.tasks :=
          (htasks.append_right _).trans (Harness.tasks_perm hpolled.grows)
        apply List.Perm.trans _ hspawned
        apply List.perm_iff_count.2
        intro u
        have hcount := hsplit.count_eq u
        simp only [List.count_append, List.count_cons, List.count_nil] at hcount ⊢
        simp only [Function.comp_def] at hcount ⊢
        omega
      · intro t' ht'
        simpa using (List.mem_filter.1 ht').2
      · have hless := countP_polled hpolled (List.nodup_append.1 hnodup).2.1 hwoken
        exact Nat.le_of_lt_succ (hless.trans_le hturns)

theorem rests_settle (ht : Tame cfg P) (hp : P s.harness) (htasks : s.idle.Perm s.harness.tasks) :
    (s.settle cfg).Rests cfg P := by
  have hsplit := List.filter_append_perm (s.harness.isReady cfg) s.idle
  have hnone : ((s.idle.filter (s.harness.isReady cfg)).countP (!s.harness.isReady cfg ·)) = 0 := by
    apply List.countP_eq_zero.2
    intro t hmem
    simp [(List.mem_filter.1 hmem).2]
  rw [settle, List.partition_eq_filter_filter]
  split
  · next heq =>
    obtain ⟨hready, _⟩ := Prod.mk.inj heq
    exact ⟨hp, htasks, fun t hmem => by simpa using List.filter_eq_nil_iff.1 hready t hmem⟩
  · next queue idle _ heq =>
    obtain ⟨rfl, rfl⟩ := Prod.mk.inj heq
    refine rests_run ht hp ((List.perm_append_comm.trans hsplit).trans htasks) (fun t hmem => ?_) ?_
    · simpa using (List.mem_filter.1 hmem).2
    · exact Nat.add_le_add_left (hnone.trans_le (Nat.zero_le _)) _

/-- Whatever is done to a session from outside, it comes to rest. -/
theorem rests_put (ht : Tame cfg P) (hp : P h) (htasks : s.idle.Perm s.harness.tasks)
    (hg : s.harness.Expands h) : (s.put cfg h).Rests cfg P :=
  rests_settle ht hp ((htasks.append_right _).trans (Harness.tasks_perm hg))

theorem rests_initial : (initial cfg).Rests cfg (· = .initial cfg) :=
  ⟨rfl, .refl _, nofun⟩

theorem rests_perform {Q : Harness M → Prop} {a : Act M} {reply : BrokerReply} (hr : s.Rests cfg P)
    (ht : Tame cfg Q) (ha : s.harness.act? cfg a = some (h, reply)) (hq : Q h)
    (hg : s.harness.Expands h) : (s.perform cfg a).1.Rests cfg Q := by
  rw [perform, ha]
  exact rests_put ht hq hr.tasks hg

end Session
end Intercept
