import Mathlib.Algebra.Group.Nat.Defs
import Mathlib.Order.Bounds.Basic
import Mathlib.Data.List.Sort
import Intercept.Broker.Basic
import Intercept.Ledger.Plan

/-! What a teardown has to reject, told tag by tag, and the plan that rejects exactly that. -/
namespace Intercept

/-- A delivered tag that a teardown has to reject: its failure was recorded, or it came after the
latest teardown and is neither acknowledged nor being processed. -/
def Due (last previous : Nat) (processing acked shouldNack : TagSet) (t : Nat) : Prop :=
  0 < t ∧ t ≤ last ∧ (t ∈ shouldNack ∨ previous < t ∧ t ∉ acked ∧ t ∉ processing)

/-- The greatest tag of a set, or zero if the set is empty. -/
def IsLast (s : Set Nat) (m : Nat) : Prop := IsGreatest s m ∨ s = ∅ ∧ m = 0

variable {last previous oldest limit n t u : Nat} {processing acked shouldNack : TagSet}

theorem Due.not_mem_acked (h : Due last previous processing acked shouldNack t)
    (hd : ∀ t ∈ shouldNack, t ∉ acked ∧ t ∉ processing) : t ∉ acked := by
  obtain ⟨_, _, hs | ⟨_, ha, _⟩⟩ := h
  · exact (hd t hs).1
  · exact ha

theorem Due.not_mem_processing (h : Due last previous processing acked shouldNack t)
    (hd : ∀ t ∈ shouldNack, t ∉ acked ∧ t ∉ processing) : t ∉ processing := by
  obtain ⟨_, _, hs | ⟨_, _, hp⟩⟩ := h
  · exact (hd t hs).2
  · exact hp

/-! The tag at which a batch ends. -/

theorem lastUnacked_le : lastUnacked acked n ≤ n := by
  induction n with
  | zero => exact Nat.le_refl _
  | succ n ih =>
    rw [lastUnacked]
    split
    · omega
    · exact Nat.le_refl _

theorem lastUnacked_not_mem (h : 0 < lastUnacked acked n) : lastUnacked acked n ∉ acked := by
  induction n with
  | zero => simp [lastUnacked] at h
  | succ n ih =>
    rw [lastUnacked] at h ⊢
    split
    · next hn =>
      rw [if_pos hn] at h
      exact ih h
    · assumption

theorem le_lastUnacked (hn : t ≤ n) (ht : t ∉ acked) : t ≤ lastUnacked acked n := by
  induction n with
  | zero => exact hn
  | succ n ih =>
    rw [lastUnacked]
    split
    · next hmem =>
      have hne : t ≠ n + 1 := by
        rintro rfl
        exact ht hmem
      exact ih (by omega)
    · exact hn

/-- A batch that may reach up to `limit` ends at the last due tag there. -/
theorem batchReject_isLast (hlimit : limit ≤ last) (hfree : ∀ t ≤ limit, t ∉ processing)
    (hs : ∀ t ∈ shouldNack, 0 < t) (hd : ∀ t ∈ shouldNack, t ∉ acked ∧ t ∉ processing) :
    IsLast {t | Due last previous processing acked shouldNack t ∧ t ≤ limit}
      (batchReject limit previous acked shouldNack) := by
  have hle : lastUnacked acked limit ≤ limit := lastUnacked_le
  have hmax : ∀ t, Due last previous processing acked shouldNack t ∧ t ≤ limit →
      t ≤ lastUnacked acked limit :=
    fun t ht => le_lastUnacked ht.2 (ht.1.not_mem_acked hd)
  rw [batchReject]
  split
  · next hreach =>
    simp only [Bool.and_eq_true, decide_eq_true_eq] at hreach
    -- Up to the reach of earlier teardowns a tag is due only for a late failure.
    have hlate : ∀ t, Due last previous processing acked shouldNack t ∧ t ≤ limit →
        t ∈ shouldNack := by
      rintro t ⟨⟨_, _, ht | ⟨hp, ha, _⟩⟩, hl⟩
      · exact ht
      · have := le_lastUnacked hl ha
        omega
    cases hf : shouldNack.floor? (lastUnacked acked limit) with
    | none =>
      refine .inr ⟨Set.eq_empty_of_forall_notMem fun t ht => ?_, rfl⟩
      have hgt := TagSet.floor?_eq_none_iff.1 hf t (hlate t ht)
      have hmax := hmax t ht
      omega
    | some m =>
      obtain ⟨hm, hmle⟩ := TagSet.mem_of_floor? hf
      refine .inl ⟨⟨⟨hs m hm, ?_, .inl hm⟩, ?_⟩, fun t ht => ?_⟩
      · exact Nat.le_trans hmle (Nat.le_trans hle hlimit)
      · exact Nat.le_trans hmle hle
      · exact TagSet.le_floor? hf (hlate t ht) (hmax t ht)
  · next hreach =>
    simp only [Bool.and_eq_true, decide_eq_true_eq, not_and, Nat.not_le] at hreach
    by_cases hpos : 0 < lastUnacked acked limit
    · refine .inl ⟨⟨⟨hpos, Nat.le_trans hle hlimit, .inr ⟨hreach hpos, ?_, ?_⟩⟩, hle⟩, hmax⟩
      · exact lastUnacked_not_mem hpos
      · exact hfree _ hle
    · refine .inr ⟨Set.eq_empty_of_forall_notMem fun t ht => ?_, by omega⟩
      have hle := hmax t ht
      have hpos := ht.1.1
      omega

/-! The rejects that go out singly. -/

theorem mem_singleRejects_iff (hprev : previous ≤ last)
    (hd : ∀ t ∈ shouldNack, t ∉ acked ∧ t ∉ processing) :
    t ∈ singleRejects last previous oldest processing acked shouldNack ↔
      Due last previous processing acked shouldNack t ∧ oldest < t := by
  simp only [singleRejects, List.mem_append, List.mem_filter, List.mem_range'_1, Bool.and_eq_true,
    decide_eq_true_eq, ← TagSet.mem_def, decide_not, Bool.not_eq_true', decide_eq_false_iff_not]
  constructor
  · rintro (⟨ht, hlt, hle⟩ | ⟨⟨hlow, hhigh⟩, ha, hp⟩)
    · exact ⟨⟨by omega, by omega, .inl ht⟩, hlt⟩
    · exact ⟨⟨by omega, by omega, .inr ⟨by omega, ha, hp⟩⟩, by omega⟩
  · rintro ⟨⟨_, hlast, ht | ⟨hp, ha, hproc⟩⟩, hlt⟩
    · by_cases hle : t ≤ previous
      · exact .inl ⟨ht, hlt, hle⟩
      · exact .inr ⟨by omega, hd t ht⟩
    · exact .inr ⟨by omega, ha, hproc⟩

theorem singleRejects_ascending :
    (singleRejects last previous oldest processing acked shouldNack).Pairwise (· < ·) := by
  rw [singleRejects, List.pairwise_append]
  refine ⟨shouldNack.ascending.filter _, (List.pairwise_lt_range' ..).filter _, ?_⟩
  · intro t ht u hu
    simp only [List.mem_filter, List.mem_range'_1, Bool.and_eq_true, decide_eq_true_eq] at ht hu
    omega

end Intercept
