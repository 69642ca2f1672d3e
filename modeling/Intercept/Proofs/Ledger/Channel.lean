import Intercept.Proofs.Ledger.Account

/-! A strict channel: it refuses to settle a tag twice or to settle one that is being processed. -/
namespace Intercept

/-- A channel that settles every delivered tag once. -/
structure Channel where
  /-- The tags up to this one were delivered. -/
  delivered : Nat := 0
  settled : TagSet := ∅

namespace Channel

/-- Settles one tag; refused if it was not delivered, is being processed or is settled already. -/
def settle? (c : Channel) (processing : TagSet) (tag : Nat) : Option Channel :=
  if 0 < tag ∧ tag ≤ c.delivered ∧ tag ∉ processing ∧ tag ∉ c.settled then
    some { c with settled := c.settled.insert tag }
  else none

/-- Settles a tag and every lower one; refused if that would settle one that is
being processed. -/
def settleUpTo? (c : Channel) (processing : TagSet) (tag : Nat) : Option Channel := do
  let c ← c.settle? processing tag
  if ∀ t ∈ processing, tag < t then
    some { c with settled := (List.range' 1 tag).foldl TagSet.insert c.settled }
  else none

/-- One reject; a batch carries the mark. -/
def reject? (c : Channel) (processing : TagSet) (r : Nat × Bool) : Option Channel :=
  if r.2 then c.settleUpTo? processing r.1 else c.settle? processing r.1

/-- Rejects one after the other, none of which may be refused. -/
def rejectAll? (processing : TagSet) : Channel → List (Nat × Bool) → Option Channel
  | c, [] => some c
  | c, r :: rest => (c.reject? processing r).bind fun c => rejectAll? processing c rest

/-- The delivered tags that are not settled. -/
def unsettled (c : Channel) : Set Nat := {t | 0 < t ∧ t ≤ c.delivered ∧ t ∉ c.settled}

variable {c c' : Channel} {processing : TagSet} {t : Nat} {r : Nat × Bool}

theorem settle?_of_unsettled (ht : t ∈ c.unsettled) (hc : t ∉ processing) :
    c.settle? processing t = some { c with settled := c.settled.insert t } :=
  if_pos ⟨ht.1, ht.2.1, hc, ht.2.2⟩

theorem mem_foldl_insert {tags : List Nat} {s : TagSet} :
    t ∈ tags.foldl TagSet.insert s ↔ t ∈ tags ∨ t ∈ s := by
  induction tags generalizing s with
  | nil => simp
  | cons a rest ih =>
    rw [List.foldl_cons, ih, TagSet.mem_insert, List.mem_cons]
    tauto

/-- A reject of an unsettled tag that spares the tags being processed is taken, and settles what it
covers. -/
theorem reject?_of_unsettled (hr : r.1 ∈ c.unsettled)
    (hc : ∀ t ∈ processing, Broker.covers r.1 r.2 t = false) :
    ∃ c', c.reject? processing r = some c' ∧ c'.delivered = c.delivered ∧
      ∀ t, t ∈ c'.settled ↔ t ∈ c.settled ∨ 0 < t ∧ Broker.covers r.1 r.2 t = true := by
  obtain ⟨tag, multiple⟩ := r
  have hpos : 0 < tag := hr.1
  have hfree : tag ∉ processing := by
    intro ht
    have := hc tag ht
    cases multiple <;> simp [Broker.covers] at this
  have hone := settle?_of_unsettled hr hfree
  cases multiple with
  | false =>
    refine ⟨_, hone, rfl, fun t => ?_⟩
    simp only [TagSet.mem_insert, Broker.covers, Bool.false_eq_true, if_false, beq_iff_eq]
    constructor
    · rintro (rfl | h)
      · exact Or.inr ⟨hpos, rfl⟩
      · exact Or.inl h
    · rintro (h | ⟨_, rfl⟩)
      · exact Or.inr h
      · exact Or.inl rfl
  | true =>
    have hbelow : ∀ t ∈ processing, tag < t := by
      intro t ht
      simpa [Broker.covers] using hc t ht
    have hall : c.settleUpTo? processing tag = some { c with
        settled := (List.range' 1 tag).foldl TagSet.insert (c.settled.insert tag) } := by
      rw [settleUpTo?, hone]
      exact if_pos hbelow
    refine ⟨_, hall, rfl, fun t => ?_⟩
    have hle : 1 ≤ t ∧ t < 1 + tag ↔ 0 < t ∧ t ≤ tag := by omega
    rw [mem_foldl_insert, List.mem_range'_1, hle, TagSet.mem_insert]
    simp only [Broker.covers, if_true, decide_eq_true_eq]
    constructor
    · rintro (h | rfl | h)
      · exact Or.inr h
      · exact Or.inr ⟨hpos, Nat.le_refl _⟩
      · exact Or.inl h
    · rintro (h | h)
      · exact Or.inr (Or.inr h)
      · exact Or.inl h

/-- The channel takes rejects that are acceptable in this order and spare the tags being
processed. -/
theorem rejectAll?_of_accepted {rejects : List (Nat × Bool)} (ha : Accepted c.unsettled rejects)
    (hc : ∀ r ∈ rejects, ∀ t ∈ processing, Broker.covers r.1 r.2 t = false) :
    ∃ c', c.rejectAll? processing rejects = some c' ∧ c'.delivered = c.delivered ∧
      ∀ t, t ∈ c'.settled ↔
        t ∈ c.settled ∨ 0 < t ∧ ∃ r ∈ rejects, Broker.covers r.1 r.2 t = true := by
  induction rejects generalizing c with
  | nil => exact ⟨c, rfl, rfl, fun t => by simp⟩
  | cons r rest ih =>
    obtain ⟨hr, hrest⟩ := ha
    obtain ⟨hcr, hcrest⟩ := List.forall_mem_cons.1 hc
    obtain ⟨c₁, hc₁, hdelivered, hsettled⟩ := reject?_of_unsettled hr hcr
    have hleft : c₁.unsettled = {t ∈ c.unsettled | Broker.covers r.1 r.2 t = false} := by
      ext t
      simp only [unsettled, Set.mem_ofPred_eq, hdelivered, hsettled, not_or, not_and,
        Bool.not_eq_true]
      constructor
      · rintro ⟨hpos, hle, hnot, hfree⟩
        exact ⟨⟨hpos, hle, hnot⟩, hfree hpos⟩
      · rintro ⟨⟨hpos, hle, hnot⟩, hfree⟩
        exact ⟨hpos, hle, hnot, fun _ => hfree⟩
    obtain ⟨c', hc', hdelivered', hsettled'⟩ := ih (hleft ▸ hrest) hcrest
    refine ⟨c', ?_, hdelivered'.trans hdelivered, fun t => ?_⟩
    · rw [rejectAll?, hc₁]
      exact hc'
    · rw [hsettled' t, hsettled t, or_assoc, ← and_or_left]
      simp

theorem rejectAll?_append {before after : List (Nat × Bool)} :
    c.rejectAll? processing (before ++ after) =
      (c.rejectAll? processing before).bind fun c => c.rejectAll? processing after := by
  induction before generalizing c with
  | nil => rfl
  | cons r rest ih =>
    simp only [List.cons_append, rejectAll?, Option.bind_assoc, ih]

theorem unsettled_of_settle? (h : c.settle? processing t = some c') :
    t ∈ c.unsettled ∧ t ∉ processing := by
  rw [settle?] at h
  split at h
  · next hfree => exact ⟨⟨hfree.1, hfree.2.1, hfree.2.2.2⟩, hfree.2.2.1⟩
  · cases h

/-- A reject that was taken names an unsettled tag and spares every tag being processed. -/
theorem unsettled_of_reject? (h : c.reject? processing r = some c') :
    r.1 ∈ c.unsettled ∧ ∀ t ∈ processing, Broker.covers r.1 r.2 t = false := by
  obtain ⟨tag, multiple⟩ := r
  cases multiple with
  | false =>
    obtain ⟨hun, hfree⟩ := unsettled_of_settle? h
    refine ⟨hun, fun t ht => ?_⟩
    have hne : t ≠ tag := fun heq => hfree (heq ▸ ht)
    simpa [Broker.covers] using hne
  | true =>
    obtain ⟨c₁, hone, hrest⟩ := Option.bind_eq_some_iff.1 h
    refine ⟨(unsettled_of_settle? hone).1, fun t ht => ?_⟩
    split at hrest
    · next hbelow => simpa [Broker.covers] using hbelow t ht
    · cases hrest

/-- Rejects that were taken settle what they cover and nothing else. -/
theorem settled_of_rejectAll? {rejects : List (Nat × Bool)}
    (h : c.rejectAll? processing rejects = some c') :
    c'.delivered = c.delivered ∧ ∀ t, t ∈ c'.settled ↔
      t ∈ c.settled ∨ 0 < t ∧ ∃ r ∈ rejects, Broker.covers r.1 r.2 t = true := by
  induction rejects generalizing c with
  | nil =>
    cases h
    simp
  | cons r rest ih =>
    obtain ⟨c₁, hr, hrest⟩ := Option.bind_eq_some_iff.1 h
    obtain ⟨hun, hspares⟩ := unsettled_of_reject? hr
    obtain ⟨c₂, hc₂, hdelivered, hsettled⟩ := reject?_of_unsettled hun hspares
    obtain rfl : c₁ = c₂ := Option.some.inj (hr.symm.trans hc₂)
    obtain ⟨hdelivered', hsettled'⟩ := ih hrest
    refine ⟨hdelivered'.trans hdelivered, fun t => ?_⟩
    rw [hsettled' t, hsettled t, or_assoc, ← and_or_left]
    simp

end Channel
end Intercept
