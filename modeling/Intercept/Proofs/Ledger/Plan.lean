import Intercept.Proofs.Ledger.Walk

/-! The plan of a teardown rejects what is due and nothing else. -/
namespace Intercept

theorem TagSet.min?_eq_some_iff {s : TagSet} {m : Nat} :
    s.min? = some m ↔ IsLeast {t | t ∈ s} m := by
  constructor
  · intro h
    exact ⟨TagSet.mem_of_min? h, fun t ht => TagSet.min?_le h ht⟩
  · rintro ⟨hm, hle⟩
    cases hmin : s.min? with
    | none => exact (TagSet.min?_eq_none_iff.1 hmin m hm).elim
    | some k => rw [Nat.le_antisymm (TagSet.min?_le hmin hm) (hle (TagSet.mem_of_min? hmin))]

theorem IsLast.mem {s : Set Nat} {m : Nat} (h : IsLast s m) (hm : 0 < m) : m ∈ s := by
  obtain h | ⟨_, h⟩ := h
  · exact h.1
  · omega

theorem IsLast.le {s : Set Nat} {m t : Nat} (h : IsLast s m) (ht : t ∈ s) : t ≤ m := by
  obtain h | ⟨h, _⟩ := h
  · exact h.2 ht
  · simp [h] at ht

theorem RejectPlan.mem_rejects_iff {p : RejectPlan} {r : Nat × Bool} :
    r ∈ p.rejects ↔ 0 < p.multiple ∧ r = (p.multiple, true) ∨ ∃ t ∈ p.single, r = (t, false) := by
  by_cases h : 0 < p.multiple <;> simp [rejects, batch, h, eq_comm]

section
variable {last previous oldest t : Nat} {processing acked shouldNack : TagSet}
  (hprev : previous ≤ last) (hproc : ∀ t ∈ processing, 0 < t ∧ t ≤ last)
  (hs : ∀ t ∈ shouldNack, 0 < t) (hd : ∀ t ∈ shouldNack, t ∉ acked ∧ t ∉ processing)
include hs hd

theorem rejectPlan_of_empty (hp : ∀ t, t ∉ processing) :
    IsLast {t | Due last previous processing acked shouldNack t}
        (rejectPlan last previous processing acked shouldNack).multiple ∧
      (rejectPlan last previous processing acked shouldNack).single = [] := by
  have hall : {t | Due last previous processing acked shouldNack t} =
      {t | Due last previous processing acked shouldNack t ∧ t ≤ last} :=
    Set.ext fun t => ⟨fun ht => ⟨ht, ht.2.1⟩, fun ht => ht.1⟩
  rw [rejectPlan, TagSet.min?_eq_none_iff.2 hp, hall]
  exact ⟨batchReject_isLast (Nat.le_refl _) (fun t _ => hp t) hs hd, rfl⟩

include hprev hproc

theorem rejectPlan_of_oldest (ho : IsLeast {t | t ∈ processing} oldest) :
    IsLast {t | Due last previous processing acked shouldNack t ∧ t < oldest}
        (rejectPlan last previous processing acked shouldNack).multiple ∧
      (rejectPlan last previous processing acked shouldNack).single.Pairwise (· < ·) ∧
      ∀ t, t ∈ (rejectPlan last previous processing acked shouldNack).single ↔
        Due last previous processing acked shouldNack t ∧ oldest < t := by
  have holdest := hproc oldest ho.1
  have hbelow : {t | Due last previous processing acked shouldNack t ∧ t < oldest} =
      {t | Due last previous processing acked shouldNack t ∧ t ≤ oldest - 1} := by
    ext t
    constructor
    · rintro ⟨ht, hlt⟩
      exact ⟨ht, by omega⟩
    · rintro ⟨ht, hle⟩
      exact ⟨ht, by omega⟩
  rw [rejectPlan, TagSet.min?_eq_some_iff.2 ho, hbelow]
  refine ⟨batchReject_isLast (by omega) ?_ hs hd, singleRejects_ascending,
    fun t => mem_singleRejects_iff hprev hd⟩
  intro t hle ht
  have := ho.2 ht
  omega

/-- A batch is due and reaches over no tag that is being processed. -/
theorem due_multiple (hm : 0 < (rejectPlan last previous processing acked shouldNack).multiple) :
    Due last previous processing acked shouldNack
        (rejectPlan last previous processing acked shouldNack).multiple ∧
      ∀ t ∈ processing, (rejectPlan last previous processing acked shouldNack).multiple < t := by
  cases hmin : processing.min? with
  | none =>
    have hp := TagSet.min?_eq_none_iff.1 hmin
    exact ⟨(rejectPlan_of_empty hs hd hp).1.mem hm, fun t ht => (hp t ht).elim⟩
  | some oldest =>
    have ho := TagSet.min?_eq_some_iff.1 hmin
    obtain ⟨hdue, hlt⟩ := (rejectPlan_of_oldest hprev hproc hs hd ho).1.mem hm
    exact ⟨hdue, fun t ht => Nat.lt_of_lt_of_le hlt (ho.2 ht)⟩

/-- A single reject is due and lies above the batch. -/
theorem due_single (ht : t ∈ (rejectPlan last previous processing acked shouldNack).single) :
    Due last previous processing acked shouldNack t ∧
      (rejectPlan last previous processing acked shouldNack).multiple < t := by
  cases hmin : processing.min? with
  | none =>
    have hp := TagSet.min?_eq_none_iff.1 hmin
    rw [(rejectPlan_of_empty hs hd hp).2] at ht
    exact (List.not_mem_nil ht).elim
  | some oldest =>
    have ho := TagSet.min?_eq_some_iff.1 hmin
    obtain ⟨hlast, _, hsingle⟩ := rejectPlan_of_oldest hprev hproc hs hd ho
    obtain ⟨hdue, hlt⟩ := (hsingle t).1 ht
    refine ⟨hdue, ?_⟩
    obtain hgreatest | ⟨_, hzero⟩ := hlast
    · exact Nat.lt_trans hgreatest.1.2 hlt
    · omega

theorem due_of_mem_rejects {r : Nat × Bool}
    (hr : r ∈ (rejectPlan last previous processing acked shouldNack).rejects) :
    Due last previous processing acked shouldNack r.1 ∧
      ∀ t ∈ processing, Broker.covers r.1 r.2 t = false := by
  obtain ⟨hm, rfl⟩ | ⟨u, hu, rfl⟩ := RejectPlan.mem_rejects_iff.1 hr
  · obtain ⟨hdue, hlt⟩ := due_multiple hprev hproc hs hd hm
    refine ⟨hdue, fun t ht => ?_⟩
    have := hlt t ht
    simpa [Broker.covers] using this
  · obtain ⟨hdue, _⟩ := due_single hprev hproc hs hd hu
    refine ⟨hdue, fun t ht => ?_⟩
    have hne : t ≠ u := by
      rintro rfl
      exact hdue.not_mem_processing hd ht
    simpa [Broker.covers] using hne

theorem due_covered (ht : Due last previous processing acked shouldNack t) :
    ∃ r ∈ (rejectPlan last previous processing acked shouldNack).rejects,
      Broker.covers r.1 r.2 t = true := by
  have hbatch (hle : t ≤ (rejectPlan last previous processing acked shouldNack).multiple) :
      ∃ r ∈ (rejectPlan last previous processing acked shouldNack).rejects,
        Broker.covers r.1 r.2 t = true := by
    have hpos := ht.1
    exact ⟨_, RejectPlan.mem_rejects_iff.2 (.inl ⟨by omega, rfl⟩),
      by simpa [Broker.covers] using hle⟩
  cases hmin : processing.min? with
  | none =>
    have hp := TagSet.min?_eq_none_iff.1 hmin
    exact hbatch ((rejectPlan_of_empty hs hd hp).1.le ht)
  | some oldest =>
    have ho := TagSet.min?_eq_some_iff.1 hmin
    obtain ⟨hlast, _, hsingle⟩ := rejectPlan_of_oldest hprev hproc hs hd ho
    obtain hlt | rfl | hgt := lt_trichotomy t oldest
    · exact hbatch (hlast.le ⟨ht, hlt⟩)
    · exact (ht.not_mem_processing hd ho.1).elim
    · refine ⟨(t, false), RejectPlan.mem_rejects_iff.2 (.inr ⟨t, ?_, rfl⟩), ?_⟩
      · exact (hsingle t).2 ⟨ht, hgt⟩
      · simp [Broker.covers]

/-- Rejects go by ascending tag, and only the first of them may be a batch. -/
theorem rejects_ascend : (rejectPlan last previous processing acked shouldNack).rejects.Pairwise
    fun r s => r.1 < s.1 ∧ s.2 = false := by
  have hsingle :
      (rejectPlan last previous processing acked shouldNack).single.Pairwise (· < ·) := by
    cases hmin : processing.min? with
    | none =>
      rw [(rejectPlan_of_empty hs hd (TagSet.min?_eq_none_iff.1 hmin)).2]
      exact .nil
    | some oldest =>
      have ho := TagSet.min?_eq_some_iff.1 hmin
      exact (rejectPlan_of_oldest hprev hproc hs hd ho).2.1
  rw [RejectPlan.rejects, List.pairwise_append]
  refine ⟨?_, ?_, ?_⟩
  · rw [RejectPlan.batch]
    split <;> simp
  · rw [List.pairwise_map]
    exact hsingle.imp fun hlt => ⟨hlt, rfl⟩
  · intro r hr s hsr
    obtain ⟨u, hu, rfl⟩ := List.mem_map.1 hsr
    have hlt := (due_single hprev hproc hs hd hu).2
    rw [RejectPlan.batch] at hr
    split at hr
    · simp only [Option.toList_some, List.map_cons, List.map_nil, List.mem_singleton] at hr
      exact ⟨by simpa [hr] using hlt, rfl⟩
    · simp at hr

/-- A reject of a plan leaves the tags of the later ones alone. -/
theorem rejects_pairwise : (rejectPlan last previous processing acked shouldNack).rejects.Pairwise
    fun r s => Broker.covers r.1 r.2 s.1 = false := by
  refine (rejects_ascend hprev hproc hs hd).imp fun {r s} hlt => ?_
  apply Bool.eq_false_iff.2
  intro hcovers
  have := Broker.le_of_covers hcovers
  omega

end

/-- Below the oldest tag being processed a batch ends at the last due tag, and above it every due
tag is rejected on its own. So no reject reaches a tag that is being processed or names one that
was acknowledged, no due tag is left out, and words of 64 bits suffice to find the plan. -/
theorem rejectPlan_rejects_exactly_due {last previous : Nat} {processing acked shouldNack : TagSet}
    (hprev : previous ≤ last) (hlast : last < 2 ^ 64 - 1)
    (hproc : ∀ t ∈ processing, 0 < t ∧ t ≤ last) (hs : ∀ t ∈ shouldNack, 0 < t)
    (hd : ∀ t ∈ shouldNack, t ∉ acked ∧ t ∉ processing) :
    ((∀ t, t ∉ processing) →
      IsLast {t | Due last previous processing acked shouldNack t}
          (rejectPlan last previous processing acked shouldNack).multiple ∧
        (rejectPlan last previous processing acked shouldNack).single = []) ∧
    (∀ oldest, IsLeast {t | t ∈ processing} oldest →
      IsLast {t | Due last previous processing acked shouldNack t ∧ t < oldest}
          (rejectPlan last previous processing acked shouldNack).multiple ∧
        (rejectPlan last previous processing acked shouldNack).single.Pairwise (· < ·) ∧
        ∀ t, t ∈ (rejectPlan last previous processing acked shouldNack).single ↔
          Due last previous processing acked shouldNack t ∧ oldest < t) ∧
    (∀ r ∈ (rejectPlan last previous processing acked shouldNack).rejects,
      r.1 ∉ acked ∧ ∀ t ∈ processing, Broker.covers r.1 r.2 t = false) ∧
    (∀ t, Due last previous processing acked shouldNack t →
      ∃ r ∈ (rejectPlan last previous processing acked shouldNack).rejects,
        Broker.covers r.1 r.2 t = true) ∧
    walkPlan? last previous processing acked shouldNack =
      some (rejectPlan last previous processing acked shouldNack) := by
  refine ⟨rejectPlan_of_empty hs hd, fun oldest ho => rejectPlan_of_oldest hprev hproc hs hd ho,
    fun r hr => ?_, fun t ht => due_covered hprev hproc hs hd ht,
    walkPlan?_eq_some hprev hlast fun t ht => (hproc t ht).2⟩
  obtain ⟨hdue, hcovers⟩ := due_of_mem_rejects hprev hproc hs hd hr
  exact ⟨hdue.not_mem_acked hd, hcovers⟩

/-- Late failures below and above the oldest claim, and unclaimed tags between later claims. -/
theorem rejectPlan_between_claims :
    rejectPlan 9 5 { toList := [4, 7] } { toList := [3, 8] } { toList := [2, 5] } = ⟨2, [5, 6, 9]⟩ ∧
    IsLast {t | Due 9 5 { toList := [4, 7] } { toList := [3, 8] } { toList := [2, 5] } t ∧ t < 4} 2 ∧
    (∀ t, t ∈ [5, 6, 9] ↔
      Due 9 5 { toList := [4, 7] } { toList := [3, 8] } { toList := [2, 5] } t ∧ 4 < t) ∧
    walkPlan? 9 5 { toList := [4, 7] } { toList := [3, 8] } { toList := [2, 5] } =
      some ⟨2, [5, 6, 9]⟩ := by
  obtain ⟨_, holdest, _, _, hwalk⟩ := @rejectPlan_rejects_exactly_due 9 5 { toList := [4, 7] }
    { toList := [3, 8] } { toList := [2, 5] } (by decide) (by decide) (by decide) (by decide)
    (by decide)
  obtain ⟨hlast, _, hsingle⟩ := holdest 4 (TagSet.min?_eq_some_iff.1 rfl)
  exact ⟨rfl, hlast, hsingle, hwalk⟩

end Intercept
