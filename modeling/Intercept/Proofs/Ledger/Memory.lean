import Mathlib.Data.List.Nodup
import Intercept.Proofs.Ledger.Bookkeeping

/-! How much a ledger remembers. A teardown keeps a tag for each callback that has succeeded although
one for an earlier tag goes on, so a single callback that goes on keeps all that overtake it. -/
namespace Intercept

/-- A set is as large as any list of its tags without repetition. -/
theorem TagSet.size_eq_length {s : TagSet} {tags : List Nat} (hn : tags.Nodup)
    (h : ∀ t, t ∈ s ↔ t ∈ tags) : s.size = tags.length := by
  have hs : s.toList.Nodup := s.ascending.imp Nat.ne_of_lt
  exact ((List.perm_ext_iff_of_nodup hs hn).2 h).length_eq

/-- A teardown remembers the acknowledged tags above some tag in processing. -/
theorem Ledger.mem_retained {l : Ledger} {t : Nat} :
    t ∈ l.retained ↔ t ∈ l.acked ∧ ∃ u ∈ l.processing, u ≤ t := by
  rw [retained]
  split
  · next hmin =>
    have hnone := TagSet.min?_eq_none_iff.1 hmin
    simp [hnone]
  · next oldest hmin =>
    rw [TagSet.mem_filter, decide_eq_true_eq]
    refine and_congr_right fun _ => ⟨fun hle => ⟨oldest, TagSet.mem_of_min? hmin, hle⟩, ?_⟩
    rintro ⟨u, hu, hle⟩
    exact Nat.le_trans (TagSet.min?_le hmin hu) hle

/-- The tags whose callbacks succeeded, in the order in which they did. -/
def successes (ops : List LedgerOp) : List Nat :=
  ops.filterMap fun
    | .finish tag .acked => some tag
    | _ => none

/-- The tags whose callbacks succeeded although one for an earlier tag goes on. -/
def overtaking (processing : TagSet) (ops : List LedgerOp) : List Nat :=
  (successes ops).filter fun t => processing.toList.any (· < t)

theorem successes_append {ops ops' : List LedgerOp} :
    successes (ops ++ ops') = successes ops ++ successes ops' := List.filterMap_append

theorem mem_overtaking {processing : TagSet} {ops : List LedgerOp} {t : Nat} :
    t ∈ overtaking processing ops ↔ t ∈ successes ops ∧ ∃ u ∈ processing, u < t := by
  simp [overtaking, List.mem_filter, TagSet.mem_def]

namespace Bookkeeping
variable {s s' : Bookkeeping} {op : LedgerOp} {ops : List LedgerOp} {succeeded : List Nat} {n : Nat}

/-- Operations within the rules, one after the other, lead from nothing to these books. -/
inductive Leads : List LedgerOp → Bookkeeping → Prop
  | initial : Leads [] {}
  | step {ops : List LedgerOp} {s s' : Bookkeeping} (op : LedgerOp) :
    Leads ops s → s.Allows op → s.perform? op = some s' → Leads (ops ++ [op]) s'

theorem Leads.reachable (h : Leads ops s) : s.Reachable := by
  induction h with
  | initial => exact .initial
  | step op _ ha hs ih => exact .step op ih ha hs

/-- What an operation makes of the ledger and of the claims. -/
def Performs (s s' : Bookkeeping) : LedgerOp → Prop
  | .observe tag => s'.ledger = s.ledger.observe tag ∧ s'.claimed = s.claimed
  | .start tag => s'.ledger = s.ledger.startProcessing tag ∧ s'.claimed = s.claimed.insert tag
  | .finish tag settlement => s.ledger.Ended s'.ledger tag settlement ∧ s'.claimed = s.claimed
  | .teardown => s'.ledger = s.ledger.teardown.2 ∧ s'.claimed = s.claimed

theorem performs_of_perform? (ha : s.Allows op) (h : s.perform? op = some s') :
    s.Performs s' op := by
  cases op with
  | observe tag =>
    cases h
    exact ⟨rfl, rfl⟩
  | start tag =>
    cases h
    exact ⟨rfl, rfl⟩
  | finish tag settlement =>
    obtain ⟨l, hl, he⟩ := Ledger.endProcessing_of_mem ha.1 settlement
    obtain ⟨l', hl', hrest⟩ := Option.bind_eq_some_iff.1 h
    rw [hl] at hl'
    cases hl'
    split at hrest
    · cases hrest
      exact ⟨he, rfl⟩
    · obtain ⟨c, _, hs'⟩ := Option.bind_eq_some_iff.1 hrest
      cases hs'
      exact ⟨he, rfl⟩
  | teardown =>
    obtain ⟨c, _, hs'⟩ := Option.bind_eq_some_iff.1 h
    cases hs'
    exact ⟨rfl, rfl⟩

/-- The last operation, and what it was performed on. -/
theorem Leads.last (h : Leads (ops ++ [op]) s') : ∃ s, Leads ops s ∧ s.Performs s' op := by
  generalize heq : ops ++ [op] = all at h
  cases h with
  | initial => simp at heq
  | step op' hs ha hperform =>
    obtain ⟨rfl, hop⟩ := List.append_inj' heq rfl
    cases hop
    exact ⟨_, hs, performs_of_perform? ha hperform⟩

/-- Operations within the rules can go on with any other. -/
theorem Leads.goes_on (h : Leads ops s) (op : LedgerOp) (ha : s.Allows op) :
    ∃ s', Leads (ops ++ [op]) s' ∧ s.Performs s' op := by
  obtain ⟨s', hs', _⟩ := (balanced_reachable h.reachable).perform? ha
  exact ⟨s', h.step op ha hs', performs_of_perform? ha hs'⟩

/-- Each of these callbacks succeeded once. Its tag is remembered, unless a teardown has passed it and
all that is being processed came after it. -/
structure Remembers (s : Bookkeeping) (succeeded : List Nat) : Prop where
  once : succeeded.Nodup
  claimed : ∀ t ∈ succeeded, t ∈ s.claimed
  ended : ∀ t ∈ succeeded, t ∉ s.ledger.processing
  acked : ∀ t ∈ s.ledger.acked, t ∈ succeeded
  kept : ∀ t ∈ succeeded, t ∈ s.ledger.acked ∨
    t ≤ s.ledger.previouslyNackedThrough ∧ ∀ u ∈ s.ledger.processing, t < u

theorem remembers_initial : ({} : Bookkeeping).Remembers [] := by
  refine ⟨.nil, ?_, ?_, ?_, ?_⟩ <;> simp

theorem Remembers.observe {tag : Nat} (h : s.Remembers succeeded)
    (hl : s'.ledger = s.ledger.observe tag) (hc : s'.claimed = s.claimed) :
    s'.Remembers succeeded := by
  refine ⟨h.once, fun t ht => hc ▸ h.claimed t ht, ?_, ?_, ?_⟩ <;> rw [hl]
  · exact h.ended
  · exact h.acked
  · exact h.kept

theorem Remembers.start {tag : Nat} (h : s.Remembers succeeded) (ha : s.Allows (.start tag))
    (hl : s'.ledger = s.ledger.startProcessing tag) (hc : s'.claimed = s.claimed.insert tag) :
    s'.Remembers succeeded := by
  obtain ⟨hlt, _, hfresh⟩ := ha
  refine ⟨h.once, fun t ht => ?_, fun t ht => ?_, ?_, fun t ht => ?_⟩
  · rw [hc, TagSet.mem_insert]
    exact .inr (h.claimed t ht)
  · have hne : t ≠ tag := fun heq => hfresh (heq ▸ h.claimed t ht)
    simp [hl, Ledger.startProcessing, hne, h.ended t ht]
  · rw [hl]
    exact h.acked
  · rw [hl]
    refine (h.kept t ht).imp_right fun hpassed => ⟨hpassed.1, fun u hu => ?_⟩
    obtain rfl | hu := TagSet.mem_insert.1 hu
    · exact Nat.lt_of_le_of_lt hpassed.1 hlt
    · exact hpassed.2 u hu

theorem Remembers.finish {tag : Nat} {settlement : Settlement} (h : s.Remembers succeeded)
    (hb : s.Balanced) (he : s.ledger.Ended s'.ledger tag settlement)
    (hc : s'.claimed = s.claimed) :
    s'.Remembers (succeeded ++ successes [.finish tag settlement]) := by
  have hkept : ∀ t ∈ succeeded, t ∈ s'.ledger.acked ∨
      t ≤ s'.ledger.previouslyNackedThrough ∧ ∀ u ∈ s'.ledger.processing, t < u := by
    intro t ht
    rw [he.acked, he.previous]
    refine (h.kept t ht).imp .inl fun ⟨hle, habove⟩ => ⟨hle, fun u hu => ?_⟩
    exact habove u ((he.processing u).1 hu).1
  have hended : ∀ t ∈ succeeded, t ∉ s'.ledger.processing := fun t ht hp =>
    h.ended t ht ((he.processing t).1 hp).1
  by_cases hs : settlement = .acked
  · subst hs
    have hnew : tag ∉ succeeded := fun ht => h.ended tag ht he.mem
    have hmem (t : Nat) : t ∈ succeeded ++ successes [.finish tag .acked] ↔
        t ∈ succeeded ∨ t = tag := by simp [successes]
    refine ⟨?_, fun t ht => ?_, fun t ht => ?_, fun t ht => ?_, fun t ht => ?_⟩
    · rw [List.nodup_append]
      refine ⟨h.once, List.nodup_singleton tag, fun t ht u hu heq => hnew ?_⟩
      rw [← List.mem_singleton.1 hu, ← heq]
      exact ht
    · rw [hc]
      obtain ht | rfl := (hmem t).1 ht
      · exact h.claimed t ht
      · exact hb.within.processing t he.mem
    · obtain ht | rfl := (hmem t).1 ht
      · exact hended t ht
      · exact fun hp => ((he.processing t).1 hp).2 rfl
    · rw [hmem]
      exact ((he.acked t).1 ht).imp (h.acked t) (·.2)
    · obtain ht | rfl := (hmem t).1 ht
      · exact hkept t ht
      · exact .inl ((he.acked t).2 (.inr ⟨rfl, rfl⟩))
  · have hnone : succeeded ++ successes [.finish tag settlement] = succeeded := by
      cases settlement with
      | acked => exact absurd rfl hs
      | shouldNack => exact List.append_nil _
      | alreadyNacked => exact List.append_nil _
    rw [hnone]
    refine ⟨h.once, fun t ht => hc ▸ h.claimed t ht, hended, fun t ht => ?_, hkept⟩
    obtain ht | ⟨hacked, _⟩ := (he.acked t).1 ht
    · exact h.acked t ht
    · exact absurd hacked hs

theorem Remembers.teardown (h : s.Remembers succeeded) (hb : s.Balanced)
    (hl : s'.ledger = s.ledger.teardown.2) (hc : s'.claimed = s.claimed) :
    s'.Remembers succeeded := by
  refine ⟨h.once, fun t ht => hc ▸ h.claimed t ht, ?_, fun t ht => ?_, fun t ht => ?_⟩
  · rw [hl]
    exact h.ended
  · rw [hl] at ht
    exact h.acked t (Ledger.acked_of_retained ht)
  · rw [hl]
    change t ∈ s.ledger.retained ∨
      t ≤ s.ledger.lastObserved ∧ ∀ u ∈ s.ledger.processing, t < u
    obtain hmem | ⟨hle, habove⟩ := h.kept t ht
    · by_cases hover : ∃ u ∈ s.ledger.processing, u ≤ t
      · exact .inl (Ledger.mem_retained.2 ⟨hmem, hover⟩)
      · refine .inr ⟨hb.sound.acked_delivered t hmem, fun u hu => Nat.lt_of_not_le fun hle => ?_⟩
        exact hover ⟨u, hu, hle⟩
    · exact .inr ⟨Nat.le_trans hle hb.sound.previous_le, habove⟩

theorem Remembers.perform (h : s.Remembers succeeded) (hb : s.Balanced) (ha : s.Allows op)
    (hp : s.Performs s' op) : s'.Remembers (succeeded ++ successes [op]) := by
  cases op with
  | observe tag => simpa [successes] using h.observe hp.1 hp.2
  | start tag => simpa [successes] using h.start ha hp.1 hp.2
  | finish tag settlement => exact h.finish hb hp.1 hp.2
  | teardown => simpa [successes] using h.teardown hb hp.1 hp.2

theorem Leads.remembers (h : Leads ops s) : s.Remembers (successes ops) := by
  induction h with
  | initial => exact remembers_initial
  | step op hs ha hperform ih =>
    rw [successes_append]
    exact ih.perform (balanced_reachable hs.reachable) ha (performs_of_perform? ha hperform)

/-- A teardown remembers the tags that have overtaken one in processing. -/
theorem Remembers.mem_retained (h : s.Remembers (successes ops)) {t : Nat} :
    t ∈ s.ledger.retained ↔ t ∈ overtaking s.ledger.processing ops := by
  rw [Ledger.mem_retained, mem_overtaking]
  constructor
  · rintro ⟨hmem, u, hu, hle⟩
    have ht := h.acked t hmem
    exact ⟨ht, u, hu, Nat.lt_of_le_of_ne hle fun heq => h.ended t ht (heq ▸ hu)⟩
  · rintro ⟨ht, u, hu, hlt⟩
    refine ⟨(h.kept t ht).resolve_right fun ⟨_, habove⟩ => ?_, u, hu, Nat.le_of_lt hlt⟩
    exact Nat.lt_asymm hlt (habove u hu)

theorem Leads.mem_acked (h : Leads (ops ++ [.teardown]) s) {t : Nat} :
    t ∈ s.ledger.acked ↔ t ∈ overtaking s.ledger.processing ops := by
  obtain ⟨s₀, hs₀, hledger, _⟩ := h.last
  rw [hledger]
  exact hs₀.remembers.mem_retained

theorem Leads.shouldNack_size (h : Leads (ops ++ [.teardown]) s) :
    s.ledger.shouldNack.size = 0 := by
  obtain ⟨s₀, _, hledger, _⟩ := h.last
  rw [hledger]
  rfl

theorem Leads.acked_size (h : Leads (ops ++ [.teardown]) s) :
    s.ledger.acked.size = (overtaking s.ledger.processing ops).length := by
  obtain ⟨s₀, hs₀, _⟩ := h.last
  exact TagSet.size_eq_length (hs₀.remembers.once.filter _) fun _ => h.mem_acked

/-- What is remembered and what is being processed came with the oldest tag in processing or later. -/
theorem Leads.size_le (h : Leads (ops ++ [.teardown]) s) {oldest : Nat}
    (ho : IsLeast {t | t ∈ s.ledger.processing} oldest) :
    s.ledger.acked.size + s.ledger.processing.size ≤ s.ledger.lastObserved + 1 - oldest := by
  have hsound := (balanced_reachable h.reachable).sound
  have hnodup (tags : TagSet) : tags.toList.Nodup := tags.ascending.imp Nat.ne_of_lt
  have hapart : (s.ledger.acked.toList ++ s.ledger.processing.toList).Nodup := by
    rw [List.nodup_append]
    refine ⟨hnodup _, hnodup _, fun t ht u hu heq => ?_⟩
    exact hsound.acked_apart t ht (heq ▸ hu)
  have hsub : s.ledger.acked.toList ++ s.ledger.processing.toList ⊆
      List.range' oldest (s.ledger.lastObserved + 1 - oldest) := by
    intro t ht
    rw [List.mem_range'_1]
    obtain hmem | hmem := List.mem_append.1 ht
    · obtain ⟨_, u, hu, hlt⟩ := mem_overtaking.1 (h.mem_acked.1 hmem)
      have hle : oldest ≤ u := ho.2 hu
      have := hsound.acked_delivered t hmem
      omega
    · have hle : oldest ≤ t := ho.2 hmem
      have := hsound.processing_delivered t hmem
      omega
  calc
    s.ledger.acked.size + s.ledger.processing.size =
        (s.ledger.acked.toList ++ s.ledger.processing.toList).length := List.length_append.symm
    _ ≤ (List.range' oldest (s.ledger.lastObserved + 1 - oldest)).length :=
      (List.subperm_of_subset hapart hsub).length_le
    _ = s.ledger.lastObserved + 1 - oldest := List.length_range'

/-- Right after a teardown a ledger remembers no failure, and one tag for each callback that has
succeeded although one for an earlier tag goes on. With those that go on these are no more than the
deliveries since the oldest of them. So memory is proportional to the callbacks that go on exactly
where the callbacks that overtake them are. -/
theorem memory_counts_overtaking (h : Leads (ops ++ [.teardown]) s) :
    s.ledger.shouldNack.size = 0 ∧
    s.ledger.acked.size = (overtaking s.ledger.processing ops).length ∧
    (∀ oldest, IsLeast {t | t ∈ s.ledger.processing} oldest →
      s.ledger.acked.size + s.ledger.processing.size ≤ s.ledger.lastObserved + 1 - oldest) ∧
    ∀ c, s.ledger.acked.size + s.ledger.shouldNack.size ≤ c * s.ledger.processing.size ↔
      (overtaking s.ledger.processing ops).length ≤ c * s.ledger.processing.size := by
  have hsize := h.acked_size
  have hnone := h.shouldNack_size
  refine ⟨hnone, hsize, fun oldest ho => h.size_le ho, fun c => ?_⟩
  rw [hsize, hnone, Nat.add_zero]

/-- The callback for the first tag goes on, while those for later tags succeed at once, each before a
teardown. -/
def oneGoesOn : (rounds : Nat) → List LedgerOp
  | 0 => [.observe 1, .start 1]
  | n + 1 => oneGoesOn n ++
    [.teardown, .observe (n + 2), .start (n + 2), .finish (n + 2) .acked]

theorem successes_oneGoesOn (n : Nat) : successes (oneGoesOn n) = List.range' 2 n := by
  induction n with
  | zero => rfl
  | succ n ih =>
    rw [oneGoesOn, successes_append, ih, List.range'_1_concat]
    congr 1
    simp [successes, Nat.add_comm]

/-- These operations are within the rules. -/
theorem leads_oneGoesOn (n : Nat) : ∃ s, Leads (oneGoesOn n) s ∧
    (∀ t, t ∈ s.ledger.processing ↔ t = 1) ∧ s.ledger.lastObserved = n + 1 ∧
    ∀ t ∈ s.claimed, t ≤ n + 1 := by
  induction n with
  | zero =>
    refine ⟨_, (Leads.initial.step (.observe 1) rfl rfl).step (.start 1) (by decide) rfl, ?_, rfl, ?_⟩
    · simp [Ledger.observe, Ledger.startProcessing]
    · simp
  | succ n ih =>
    obtain ⟨s, hs, hprocessing, hlast, hclaimed⟩ := ih
    obtain ⟨s₁, hs₁, hl₁, hc₁⟩ := hs.goes_on .teardown trivial
    have hlast₁ : s₁.ledger.lastObserved = n + 1 := by rw [hl₁]; exact hlast
    have hprevious₁ : s₁.ledger.previouslyNackedThrough = n + 1 := by rw [hl₁]; exact hlast
    have hprocessing₁ : s₁.ledger.processing = s.ledger.processing := by rw [hl₁]; rfl
    obtain ⟨s₂, hs₂, hl₂, hc₂⟩ := hs₁.goes_on (.observe (n + 2)) (by simp [Allows, hlast₁])
    have hfresh : n + 2 ∉ s₂.claimed := fun h => by
      have := hclaimed (n + 2) (hc₁ ▸ hc₂ ▸ h)
      omega
    obtain ⟨s₃, hs₃, hl₃, hc₃⟩ := hs₂.goes_on (.start (n + 2))
      (by simp [Allows, hfresh, hl₂, Ledger.observe, hlast₁, hprevious₁])
    have hprocessing₃ (t : Nat) : t ∈ s₃.ledger.processing ↔ t = n + 2 ∨ t = 1 := by
      simp [hl₃, hl₂, Ledger.startProcessing, Ledger.observe, hprocessing₁, hprocessing]
    obtain ⟨s₄, hs₄, he, hc₄⟩ := hs₃.goes_on (.finish (n + 2) .acked)
      (by simp [Allows, hprocessing₃])
    refine ⟨s₄, by simpa [oneGoesOn] using hs₄, fun t => ?_, ?_, fun t ht => ?_⟩
    · rw [he.processing, hprocessing₃]
      omega
    · rw [he.lastObserved, hl₃, hl₂]
      simp [Ledger.startProcessing, Ledger.observe, hlast₁]
    · rw [hc₄, hc₃, hc₂, hc₁, TagSet.mem_insert] at ht
      obtain rfl | ht := ht
      · exact Nat.le_refl _
      · have := hclaimed t ht
        omega

/-- A teardown after them finds one callback that goes on and all others remembered. -/
theorem oneGoesOn_overtaken (n : Nat) : ∃ s, Leads (oneGoesOn n ++ [.teardown]) s ∧
    s.ledger.processing.size = 1 ∧
    (overtaking s.ledger.processing (oneGoesOn n)).length = n := by
  obtain ⟨s₀, hs₀, hprocessing, _⟩ := leads_oneGoesOn n
  obtain ⟨s, hs, hl, _⟩ := hs₀.goes_on .teardown trivial
  have hone : ∀ t, t ∈ s.ledger.processing ↔ t ∈ [1] := by
    rw [hl, forall_congr' fun t => iff_congr Iff.rfl List.mem_singleton]
    exact hprocessing
  have hall : overtaking s.ledger.processing (oneGoesOn n) = successes (oneGoesOn n) := by
    refine List.filter_eq_self.2 fun t ht => ?_
    rw [successes_oneGoesOn, List.mem_range'_1] at ht
    exact List.any_eq_true.2 ⟨1, (hone 1).2 (List.mem_singleton.2 rfl), decide_eq_true (by omega)⟩
  refine ⟨s, hs, TagSet.size_eq_length (List.nodup_singleton 1) hone, ?_⟩
  rw [hall, successes_oneGoesOn, List.length_range']

theorem three_overtake_one : ∃ s, Leads (oneGoesOn 3 ++ [.teardown]) s ∧
    s.ledger.processing.size = 1 ∧ s.ledger.acked.size = 3 ∧ s.ledger.shouldNack.size = 0 := by
  obtain ⟨s, hs, hone, hthree⟩ := oneGoesOn_overtaken 3
  obtain ⟨hnone, hsize, _⟩ := memory_counts_overtaking hs
  exact ⟨s, hs, hone, hsize.trans hthree, hnone⟩

/-- No constant bounds memory by the callbacks that go on. -/
theorem memory_outgrows_callbacks : ¬ ∃ c, ∀ ops s, Leads (ops ++ [.teardown]) s →
    s.ledger.acked.size + s.ledger.shouldNack.size ≤ c * s.ledger.processing.size := by
  rintro ⟨c, hc⟩
  obtain ⟨s, hs, hone, hmany⟩ := oneGoesOn_overtaken (c + 1)
  have hle := hc (oneGoesOn (c + 1)) s hs
  rw [hs.acked_size, hs.shouldNack_size, hone, hmany] at hle
  omega

end Bookkeeping
end Intercept
