import Intercept.Ledger.Basic
import Intercept.Proofs.Ledger.Plan

/-! The account that a ledger keeps of the unsettled tags of its channel, and what each operation
does to it. -/
namespace Intercept

/-- A channel with these unsettled tags takes the rejects one after the other. -/
def Accepted : Set Nat → List (Nat × Bool) → Prop
  | _, [] => True
  | unsettled, r :: rest =>
    r.1 ∈ unsettled ∧ Accepted {t ∈ unsettled | Broker.covers r.1 r.2 t = false} rest

theorem accepted_of_pairwise {rejects : List (Nat × Bool)} {unsettled : Set Nat}
    (hmem : ∀ r ∈ rejects, r.1 ∈ unsettled)
    (hpair : rejects.Pairwise fun r s => Broker.covers r.1 r.2 s.1 = false) :
    Accepted unsettled rejects := by
  induction rejects generalizing unsettled with
  | nil => trivial
  | cons r rest ih =>
    obtain ⟨hr, hrest⟩ := List.forall_mem_cons.1 hmem
    obtain ⟨hleft, hpair⟩ := List.pairwise_cons.1 hpair
    exact ⟨hr, ih (fun s hs => ⟨hrest s hs, hleft s hs⟩) hpair⟩

namespace Ledger
variable {l l' : Ledger} {unsettled claimed : Set Nat} {t : Nat} {settlement : Settlement}

/-- What a teardown has to reject now. -/
def Due (l : Ledger) (t : Nat) : Prop :=
  Intercept.Due l.lastObserved l.previouslyNackedThrough l.processing l.acked l.shouldNack t

/-- The sets of a ledger hold delivered tags and do not overlap. -/
structure Sound (l : Ledger) : Prop where
  previous_le : l.previouslyNackedThrough ≤ l.lastObserved
  processing_delivered : ∀ t ∈ l.processing, 0 < t ∧ t ≤ l.lastObserved
  shouldNack_delivered : ∀ t ∈ l.shouldNack, 0 < t ∧ t ≤ l.lastObserved
  acked_delivered : ∀ t ∈ l.acked, t ≤ l.lastObserved
  shouldNack_apart : ∀ t ∈ l.shouldNack, t ∉ l.acked ∧ t ∉ l.processing
  acked_apart : ∀ t ∈ l.acked, t ∉ l.processing

/-- The unsettled tags are those being processed and those that are due. -/
def Tracks (l : Ledger) (unsettled : Set Nat) : Prop :=
  ∀ t, t ∈ unsettled ↔ t ∈ l.processing ∨ l.Due t

/-- The ledger remembers no tags but claimed ones. -/
structure Within (l : Ledger) (claimed : Set Nat) : Prop where
  processing : ∀ t ∈ l.processing, t ∈ claimed
  acked : ∀ t ∈ l.acked, t ∈ claimed
  shouldNack : ∀ t ∈ l.shouldNack, t ∈ claimed

theorem Sound.shouldNack_pos (h : l.Sound) (t : Nat) (ht : t ∈ l.shouldNack) : 0 < t :=
  (h.shouldNack_delivered t ht).1

theorem sound_initial : ({} : Ledger).Sound where
  previous_le := Nat.le_refl _
  processing_delivered := by simp
  shouldNack_delivered := by simp
  acked_delivered := by simp
  shouldNack_apart := by simp
  acked_apart := by simp

theorem within_initial : ({} : Ledger).Within claimed where
  processing := by simp
  acked := by simp
  shouldNack := by simp

theorem tracks_initial : ({} : Ledger).Tracks ∅ := by
  intro t
  simp only [Set.mem_empty_iff_false, false_iff, not_or, TagSet.not_mem_empty, not_false_eq_true,
    true_and]
  rintro ⟨hpos, hle, _⟩
  change t ≤ 0 at hle
  omega

/-! A delivery. -/

theorem Sound.observe (h : l.Sound) : (l.observe (l.lastObserved + 1)).Sound := by
  have hlast : (l.observe (l.lastObserved + 1)).lastObserved = l.lastObserved + 1 := by
    simp [Ledger.observe]
  have hgrow {t : Nat} (ht : 0 < t ∧ t ≤ l.lastObserved) :
      0 < t ∧ t ≤ (l.observe (l.lastObserved + 1)).lastObserved := by omega
  refine ⟨?_, fun t ht => hgrow (h.processing_delivered t ht),
    fun t ht => hgrow (h.shouldNack_delivered t ht), ?_, h.shouldNack_apart, h.acked_apart⟩
  · have := h.previous_le
    simp only [Ledger.observe]
    omega
  · intro t ht
    have := h.acked_delivered t ht
    omega

theorem Tracks.observe (h : l.Tracks unsettled) (hl : l.Sound) :
    (l.observe (l.lastObserved + 1)).Tracks (insert (l.lastObserved + 1) unsettled) := by
  have hlast : max l.lastObserved (l.lastObserved + 1) = l.lastObserved + 1 := by omega
  have hprev := hl.previous_le
  intro t
  have hproc := hl.processing_delivered t
  have hacked := hl.acked_delivered t
  have hshould := hl.shouldNack_delivered t
  have ht := h t
  simp only [Set.mem_insert_iff, Due, Intercept.Due, Ledger.observe, hlast] at ht ⊢
  by_cases hnew : t = l.lastObserved + 1
  · subst hnew
    have hp : l.lastObserved + 1 ∉ l.processing := fun hp => by have := hproc hp; omega
    have ha : l.lastObserved + 1 ∉ l.acked := fun ha => by have := hacked ha; omega
    simp only [true_or, true_iff]
    exact .inr ⟨by omega, Nat.le_refl _, .inr ⟨by omega, ha, hp⟩⟩
  · have hle : t ≤ l.lastObserved + 1 ↔ t ≤ l.lastObserved := by omega
    rw [ht, hle]
    simp [hnew]

/-! A claim. -/

/-- A tag that nobody has claimed, and that no teardown has passed over, is due. -/
theorem Within.due (h : l.Within claimed) (hlt : l.previouslyNackedThrough < t)
    (hle : t ≤ l.lastObserved) (hfree : t ∉ claimed) : l.Due t ∧ t ∉ l.shouldNack := by
  have hfresh : t ∉ l.acked ∧ t ∉ l.processing :=
    ⟨fun ht => hfree (h.acked t ht), fun ht => hfree (h.processing t ht)⟩
  exact ⟨⟨by omega, hle, .inr ⟨hlt, hfresh⟩⟩, fun ht => hfree (h.shouldNack t ht)⟩

theorem Within.startProcessing {claimed' : Set Nat} (h : l.Within claimed)
    (hsub : claimed ⊆ claimed') (ht : t ∈ claimed') : (l.startProcessing t).Within claimed' := by
  refine ⟨?_, fun u hu => hsub (h.acked u hu), fun u hu => hsub (h.shouldNack u hu)⟩
  intro u hu
  rcases TagSet.mem_insert.1 hu with rfl | hu
  · exact ht
  · exact hsub (h.processing u hu)

theorem Sound.startProcessing (h : l.Sound) (ht : l.Due t) (hs : t ∉ l.shouldNack) :
    (l.startProcessing t).Sound := by
  refine ⟨h.previous_le, ?_, h.shouldNack_delivered, h.acked_delivered, ?_, ?_⟩
  · intro u hu
    obtain rfl | hu := TagSet.mem_insert.1 hu
    · exact ⟨ht.1, ht.2.1⟩
    · exact h.processing_delivered u hu
  · intro u hu
    refine ⟨(h.shouldNack_apart u hu).1, fun hp => ?_⟩
    obtain rfl | hp := TagSet.mem_insert.1 hp
    · exact hs hu
    · exact (h.shouldNack_apart u hu).2 hp
  · intro u hu hp
    obtain rfl | hp := TagSet.mem_insert.1 hp
    · exact ht.not_mem_acked h.shouldNack_apart hu
    · exact h.acked_apart u hu hp

theorem Tracks.startProcessing (h : l.Tracks unsettled) (ht : l.Due t) :
    (l.startProcessing t).Tracks unsettled := by
  intro u
  rw [h u]
  simp only [Due, Intercept.Due, Ledger.startProcessing, TagSet.mem_insert] at ht ⊢
  by_cases hu : u = t
  · subst hu
    simp [ht]
  · simp [hu]

/-! The end of a claim. -/

/-- How a ledger looks after the claim on a tag has ended. -/
structure Ended (l l' : Ledger) (t : Nat) (settlement : Settlement) : Prop where
  mem : t ∈ l.processing
  lastObserved : l'.lastObserved = l.lastObserved
  previous : l'.previouslyNackedThrough = l.previouslyNackedThrough
  processing : ∀ u, u ∈ l'.processing ↔ u ∈ l.processing ∧ u ≠ t
  acked : ∀ u, u ∈ l'.acked ↔ u ∈ l.acked ∨ settlement = .acked ∧ u = t
  shouldNack : ∀ u, u ∈ l'.shouldNack ↔ u ∈ l.shouldNack ∨ settlement = .shouldNack ∧ u = t

theorem Ended.shouldNack_of_ne {u : Nat} (he : l.Ended l' t settlement)
    (hs : settlement ≠ .shouldNack) (hu : u ∈ l'.shouldNack) : u ∈ l.shouldNack := by
  rcases (he.shouldNack u).1 hu with hu | ⟨heq, _⟩
  · exact hu
  · exact (hs heq).elim

theorem endProcessing_of_mem (ht : t ∈ l.processing) (settlement : Settlement) :
    ∃ l', l.endProcessing t settlement = .ok l' ∧ l.Ended l' t settlement := by
  rw [endProcessing, if_pos ht]
  refine ⟨_, rfl, ?_⟩
  cases settlement with
  | acked => exact ⟨ht, rfl, rfl, by simp, by simp [or_comm], by simp⟩
  | shouldNack => exact ⟨ht, rfl, rfl, by simp, by simp, by simp [or_comm]⟩
  | alreadyNacked => exact ⟨ht, rfl, rfl, by simp, by simp, by simp⟩

theorem Sound.ended (h : l.Sound) (he : l.Ended l' t settlement) : l'.Sound := by
  have hdelivered := h.processing_delivered t he.mem
  refine ⟨?_, ?_, ?_, ?_, ?_, ?_⟩
  · rw [he.previous, he.lastObserved]
    exact h.previous_le
  · intro u hu
    rw [he.lastObserved]
    exact h.processing_delivered u ((he.processing u).1 hu).1
  · intro u hu
    rw [he.lastObserved]
    rcases (he.shouldNack u).1 hu with hu | ⟨_, rfl⟩
    · exact h.shouldNack_delivered u hu
    · exact hdelivered
  · intro u hu
    rw [he.lastObserved]
    rcases (he.acked u).1 hu with hu | ⟨_, rfl⟩
    · exact h.acked_delivered u hu
    · exact hdelivered.2
  · intro u hu
    rcases (he.shouldNack u).1 hu with hu | ⟨hs, rfl⟩
    · obtain ⟨ha, hp⟩ := h.shouldNack_apart u hu
      refine ⟨fun hmem => ?_, fun hmem => hp ((he.processing u).1 hmem).1⟩
      rcases (he.acked u).1 hmem with hmem | ⟨_, rfl⟩
      · exact ha hmem
      · exact hp he.mem
    · refine ⟨fun hmem => ?_, fun hmem => ((he.processing u).1 hmem).2 rfl⟩
      rcases (he.acked u).1 hmem with hmem | ⟨hacked, _⟩
      · exact h.acked_apart u hmem he.mem
      · rw [hs] at hacked
        cases hacked
  · intro u hu hp
    obtain ⟨hp, hne⟩ := (he.processing u).1 hp
    rcases (he.acked u).1 hu with hu | ⟨_, rfl⟩
    · exact h.acked_apart u hu hp
    · exact hne rfl

theorem Within.ended (h : l.Within claimed) (he : l.Ended l' t settlement) :
    l'.Within claimed := by
  have ht := h.processing t he.mem
  refine ⟨fun u hu => h.processing u ((he.processing u).1 hu).1, ?_, ?_⟩
  · intro u hu
    rcases (he.acked u).1 hu with hu | ⟨_, rfl⟩
    · exact h.acked u hu
    · exact ht
  · intro u hu
    rcases (he.shouldNack u).1 hu with hu | ⟨_, rfl⟩
    · exact h.shouldNack u hu
    · exact ht

/-- A failure that the next teardown rejects leaves the tag unsettled. -/
theorem Tracks.ended_shouldNack (h : l.Tracks unsettled) (hl : l.Sound)
    (he : l.Ended l' t .shouldNack) : l'.Tracks unsettled := by
  have hdelivered := hl.processing_delivered t he.mem
  intro u
  rw [h u]
  simp only [Due, Intercept.Due, he.lastObserved, he.previous, he.processing, he.acked,
    he.shouldNack]
  by_cases hu : u = t
  · subst hu
    simp [he.mem, hdelivered]
  · simp [hu]

/-- A tag that is settled as its claim ends is unsettled no longer. For a rejected one this takes a
teardown that came after its delivery. -/
theorem Tracks.ended_settled (h : l.Tracks unsettled) (hl : l.Sound)
    (hs : settlement = .acked ∨ settlement = .alreadyNacked ∧ t ≤ l.previouslyNackedThrough)
    (he : l.Ended l' t settlement) : l'.Tracks {u ∈ unsettled | u ≠ t} := by
  have hshould : t ∉ l.shouldNack := fun hmem => (hl.shouldNack_apart t hmem).2 he.mem
  intro u
  rw [Set.mem_ofPred_eq, h u]
  simp only [Due, Intercept.Due, he.lastObserved, he.previous, he.processing, he.acked,
    he.shouldNack]
  by_cases hu : u = t
  · subst hu
    rcases hs with rfl | ⟨rfl, hle⟩
    · simp [hshould]
    · simp [hshould, hle]
  · simp [hu]

/-! A teardown. -/

theorem acked_of_retained (ht : t ∈ l.retained) : t ∈ l.acked := by
  rw [retained] at ht
  split at ht
  · exact (TagSet.not_mem_empty t ht).elim
  · exact (TagSet.mem_filter.1 ht).1

theorem Sound.teardown (h : l.Sound) : l.teardown.2.Sound := by
  refine ⟨Nat.le_refl _, h.processing_delivered, ?_,
    fun u hu => h.acked_delivered u (acked_of_retained hu), ?_,
    fun u hu => h.acked_apart u (acked_of_retained hu)⟩
  · intro u hu
    exact (TagSet.not_mem_empty u hu).elim
  · intro u hu
    exact (TagSet.not_mem_empty u hu).elim

theorem Within.teardown (h : l.Within claimed) : l.teardown.2.Within claimed :=
  ⟨h.processing, fun u hu => h.acked u (acked_of_retained hu),
    fun u hu => (TagSet.not_mem_empty u hu).elim⟩

theorem not_due_teardown : ¬ l.teardown.2.Due t := by
  rintro ⟨_, hle, hs | ⟨hlt, _, _⟩⟩
  · exact TagSet.not_mem_empty t hs
  · exact Nat.not_lt.2 hle hlt

theorem tracks_teardown : l.teardown.2.Tracks {t | t ∈ l.processing} := by
  intro t
  constructor
  · exact .inl
  · rintro (hp | hdue)
    · exact hp
    · exact (not_due_teardown hdue).elim

theorem Sound.not_covered (h : l.Sound) {r : Nat × Bool} (hr : r ∈ l.plan.rejects)
    (ht : t ∈ l.processing) : Broker.covers r.1 r.2 t = false :=
  (due_of_mem_rejects h.previous_le h.processing_delivered h.shouldNack_pos h.shouldNack_apart hr).2
    t ht

theorem Sound.due_reject (h : l.Sound) {r : Nat × Bool} (hr : r ∈ l.plan.rejects) : l.Due r.1 :=
  (due_of_mem_rejects h.previous_le h.processing_delivered h.shouldNack_pos h.shouldNack_apart hr).1

theorem Sound.rejects_ascend (h : l.Sound) :
    l.plan.rejects.Pairwise fun r s => r.1 < s.1 ∧ s.2 = false :=
  Intercept.rejects_ascend h.previous_le h.processing_delivered h.shouldNack_pos
    h.shouldNack_apart

/-- The channel takes the whole plan. -/
theorem Tracks.accepted (h : l.Tracks unsettled) (hl : l.Sound) :
    Accepted unsettled l.plan.rejects :=
  accepted_of_pairwise (fun r hr => (h r.1).2 (.inr (hl.due_reject hr)))
    (rejects_pairwise hl.previous_le hl.processing_delivered hl.shouldNack_pos hl.shouldNack_apart)

/-- The plan leaves exactly the tags that are being processed. -/
theorem Tracks.left_by_plan (h : l.Tracks unsettled) (hl : l.Sound) :
    t ∈ unsettled ∧ (∀ r ∈ l.plan.rejects, Broker.covers r.1 r.2 t = false) ↔ t ∈ l.processing := by
  constructor
  · rintro ⟨ht, hfree⟩
    obtain hp | hdue := (h t).1 ht
    · exact hp
    · obtain ⟨r, hr, hcovers⟩ := due_covered hl.previous_le hl.processing_delivered
        hl.shouldNack_pos hl.shouldNack_apart hdue
      rw [hfree r hr] at hcovers
      cases hcovers
  · intro hp
    exact ⟨(h t).2 (.inl hp), fun r hr => hl.not_covered hr hp⟩

end Ledger
end Intercept
