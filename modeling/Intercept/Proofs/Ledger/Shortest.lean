import Mathlib.Combinatorics.Enumerative.DoubleCounting
import Intercept.Proofs.Ledger.Bookkeeping

/-! No shorter sequence of rejects does what a teardown has to do: a reject that spares the tags
being processed covers at most one of the tags that the plan names. -/
namespace Intercept

namespace Ledger
variable {l : Ledger} {q r r' : Nat × Bool} {n : Nat}

/-- The rejects of a plan name different tags. -/
theorem Sound.named_nodup (h : l.Sound) : (l.plan.rejects.map (·.1)).Nodup :=
  List.pairwise_map.2 (h.rejects_ascend.imp fun hlt => Nat.ne_of_lt hlt.1)

/-- The rejects of a plan that lie below every tag being processed are its batch at most. -/
theorem Sound.eq_batch (h : l.Sound) (hr : r ∈ l.plan.rejects) (hn : ∀ t ∈ l.processing, n < t)
    (hle : r.1 ≤ n) : r = (l.plan.multiple, true) := by
  obtain ⟨_, rfl⟩ | ⟨t, ht, rfl⟩ := RejectPlan.mem_rejects_iff.1 hr
  · rfl
  · exfalso
    cases hmin : l.processing.min? with
    | none =>
      have hp := TagSet.min?_eq_none_iff.1 hmin
      have hnone : l.plan.single = [] :=
        (rejectPlan_of_empty h.shouldNack_pos h.shouldNack_apart hp).2
      simp [hnone] at ht
    | some oldest =>
      have ho := TagSet.min?_eq_some_iff.1 hmin
      obtain ⟨_, _, hsingle⟩ := rejectPlan_of_oldest h.previous_le h.processing_delivered
        h.shouldNack_pos h.shouldNack_apart ho
      have habove : oldest < t := ((hsingle t).1 ht).2
      have hbelow : n < oldest := hn oldest ho.1
      simp only at hle
      omega

/-- A reject that spares the tags being processed covers one tag of a plan at most. -/
theorem Sound.eq_of_covers (h : l.Sound)
    (hspares : ∀ t ∈ l.processing, Broker.covers q.1 q.2 t = false) (hr : r ∈ l.plan.rejects)
    (hr' : r' ∈ l.plan.rejects) (hqr : Broker.covers q.1 q.2 r.1 = true)
    (hqr' : Broker.covers q.1 q.2 r'.1 = true) : r = r' := by
  obtain ⟨tag, multiple⟩ := q
  cases multiple with
  | false =>
    simp only [Broker.covers, Bool.false_eq_true, if_false, beq_iff_eq] at hqr hqr'
    exact List.inj_on_of_nodup_map h.named_nodup hr hr' (hqr.trans hqr'.symm)
  | true =>
    simp only [Broker.covers, if_true, decide_eq_true_eq, decide_eq_false_iff_not,
      Nat.not_le] at hspares hqr hqr'
    rw [h.eq_batch hr hspares hqr, h.eq_batch hr' hspares hqr']

/-- Rejects that cover every due tag and spare the tags being processed are as many as those of
the plan or more. -/
theorem Sound.length_plan_le (h : l.Sound) {rejects : List (Nat × Bool)}
    (hcover : ∀ t, l.Due t → ∃ q ∈ rejects, Broker.covers q.1 q.2 t = true)
    (hspare : ∀ q ∈ rejects, ∀ t ∈ l.processing, Broker.covers q.1 q.2 t = false) :
    l.plan.rejects.length ≤ rejects.length := by
  have hsome : ∀ r ∈ l.plan.rejects.toFinset,
      ∃ q ∈ rejects.toFinset, Broker.covers q.1 q.2 r.1 = true := by
    intro r hr
    obtain ⟨q, hq, hcovers⟩ := hcover r.1 (h.due_reject (List.mem_toFinset.1 hr))
    exact ⟨q, List.mem_toFinset.2 hq, hcovers⟩
  have hone : ∀ q ∈ rejects.toFinset,
      {r | r ∈ l.plan.rejects.toFinset ∧ Broker.covers q.1 q.2 r.1 = true}.Subsingleton := by
    intro q hq r hr r' hr'
    exact h.eq_of_covers (hspare q (List.mem_toFinset.1 hq)) (List.mem_toFinset.1 hr.1)
      (List.mem_toFinset.1 hr'.1) hr.2 hr'.2
  calc
    l.plan.rejects.length = l.plan.rejects.toFinset.card :=
      (List.toFinset_card_of_nodup h.named_nodup.of_map).symm
    _ ≤ rejects.toFinset.card := Finset.card_le_card_of_forall_subsingleton _ hsome hone
    _ ≤ rejects.length := List.toFinset_card_le rejects

end Ledger

namespace Bookkeeping
variable {s : Bookkeeping} {rejects : List (Nat × Bool)}

/-- The channel takes these rejects one after the other, and of the unsettled tags they settle all
but those being processed. The channel itself knows nothing of processing. -/
def Clears (s : Bookkeeping) (rejects : List (Nat × Bool)) : Prop :=
  ∃ c, s.channel.rejectAll? ∅ rejects = some c ∧
    ∀ t ∈ s.channel.unsettled, t ∈ c.settled ↔ t ∉ s.ledger.processing

theorem Balanced.plan_clears (h : s.Balanced) : s.Clears s.ledger.plan.rejects := by
  obtain ⟨c, hc, _, hsettled⟩ := Channel.rejectAll?_of_accepted (h.tracks.accepted h.sound)
    (fun _ _ t ht => (TagSet.not_mem_empty t ht).elim)
  refine ⟨c, hc, fun t ht => ?_⟩
  rw [hsettled t, ← h.tracks.left_by_plan h.sound]
  constructor
  · rintro (hmem | ⟨_, r, hr, hcovers⟩) ⟨_, hfree⟩
    · exact ht.2.2 hmem
    · rw [hfree r hr] at hcovers
      cases hcovers
  · intro hleft
    by_contra hnot
    refine hleft ⟨ht, fun r hr => ?_⟩
    by_contra hcovers
    exact hnot (.inr ⟨ht.1, r, hr, by simpa using hcovers⟩)

theorem Balanced.covered_of_clears (h : s.Balanced) (hc : s.Clears rejects) {t : Nat}
    (ht : s.ledger.Due t) : ∃ q ∈ rejects, Broker.covers q.1 q.2 t = true := by
  obtain ⟨c, hc, hclears⟩ := hc
  have hun : t ∈ s.channel.unsettled := (h.tracks t).2 (.inr ht)
  have hsettled : t ∈ c.settled :=
    (hclears t hun).2 (Intercept.Due.not_mem_processing ht h.sound.shouldNack_apart)
  obtain hmem | ⟨_, hcovered⟩ := ((Channel.settled_of_rejectAll? hc).2 t).1 hsettled
  · exact absurd hmem hun.2.2
  · exact hcovered

theorem Balanced.spared_of_clears (h : s.Balanced) (hc : s.Clears rejects) {q : Nat × Bool}
    (hq : q ∈ rejects) {t : Nat} (ht : t ∈ s.ledger.processing) :
    Broker.covers q.1 q.2 t = false := by
  obtain ⟨c, hc, hclears⟩ := hc
  have hun : t ∈ s.channel.unsettled := (h.tracks t).2 (.inl ht)
  by_contra hcovers
  have hsettled : t ∈ c.settled := ((Channel.settled_of_rejectAll? hc).2 t).2
    (.inr ⟨hun.1, q, hq, by simpa using hcovers⟩)
  exact (hclears t hun).1 hsettled ht

/-- The rejects of a teardown settle all that is unsettled and not being processed, and nothing that
does so takes fewer. -/
theorem plan_is_shortest (h : s.Reachable) :
    s.Clears s.ledger.plan.rejects ∧
    ∀ rejects, s.Clears rejects → s.ledger.plan.rejects.length ≤ rejects.length := by
  have hs := balanced_reachable h
  refine ⟨hs.plan_clears, fun rejects hc => hs.sound.length_plan_le ?_ ?_⟩
  · intro t ht
    exact hs.covered_of_clears hc ht
  · intro q hq t ht
    exact hs.spared_of_clears hc hq ht

/-- Around the claim on the tag 3 a failure below it and two tags above it take a reject each. -/
theorem lateFailures_need_three :
    lateFailures.Clears [(1, true), (4, false), (5, false)] ∧
    ¬ lateFailures.Clears [(5, true), (4, false)] ∧
    ∀ rejects, lateFailures.Clears rejects → 3 ≤ rejects.length := by
  obtain ⟨hclears, hshortest⟩ := plan_is_shortest lateFailures_reachable
  have hplan : lateFailures.ledger.plan.rejects = [(1, true), (4, false), (5, false)] := by decide
  rw [hplan] at hclears hshortest
  exact ⟨hclears, fun h => absurd (hshortest _ h) (by decide), hshortest⟩

end Bookkeeping
end Intercept
