import Intercept.Proofs.Ledger.Due

/-! The plan of a teardown computed by walks over tags that are words of 64 bits. A walk has no
result if one of its additions or subtractions leaves the range of a word. -/
namespace Intercept

/-- Whether the sum of two words is a word of 64 bits again. -/
def sumFits (a b : Nat) : Bool := a + b < 2 ^ 64

/-- Whether a word can be taken from another one without a borrow. -/
def differenceFits (a b : Nat) : Bool := b ≤ a

/-- Walks from a tag up to `previous`: the late failures on the way, and the tag where it ends. -/
def walkLate? (previous : Nat) (shouldNack : TagSet) (tag : Nat) : Option (List Nat × Nat) :=
  if tag ≤ previous then
    if sumFits tag 1 then
      (walkLate? previous shouldNack (tag + 1)).map fun (late, stop) =>
        (if tag ∈ shouldNack then tag :: late else late, stop)
    else none
  else some ([], tag)
termination_by previous + 1 - tag

/-- Walks down from a tag over the acknowledged ones. -/
def walkDown? (acked : TagSet) (tag : Nat) : Option Nat :=
  if 0 < tag ∧ tag ∈ acked then
    if differenceFits tag 1 then walkDown? acked (tag - 1) else none
  else some tag
termination_by tag

/-- The plan of a teardown, unless the arithmetic of a walk leaves the range of a word. -/
def walkPlan? (last previous : Nat) (processing acked shouldNack : TagSet) : Option RejectPlan := do
  let (limit, single) ← match processing.min? with
    | none => some (last, [])
    | some oldest =>
      if sumFits oldest 1 then
        (walkLate? previous shouldNack (oldest + 1)).map fun (late, fresh) =>
          (oldest - 1, late ++ (List.range' fresh (last + 1 - fresh)).filter fun t =>
            t ∉ acked && t ∉ processing)
      else none
  let reach ← walkDown? acked limit
  some ⟨if 0 < reach && reach ≤ previous then (shouldNack.floor? reach).getD 0 else reach, single⟩

variable {last previous tag : Nat} {processing acked shouldNack : TagSet}

theorem walkLate?_eq_some (h : previous < 2 ^ 64 - 1) :
    walkLate? previous shouldNack tag =
      some ((List.range' tag (previous + 1 - tag)).filter (· ∈ shouldNack),
        max tag (previous + 1)) := by
  fun_induction walkLate? previous shouldNack tag with
  | case1 tag hle hword ih =>
    have hrange : previous + 1 - tag = (previous + 1 - (tag + 1)) + 1 := by omega
    have hmax : max (tag + 1) (previous + 1) = max tag (previous + 1) := by omega
    rw [ih, hrange, List.range'_succ, List.filter_cons, hmax]
    split <;> simp_all
  | case2 tag hle hword =>
    simp only [sumFits, decide_eq_true_eq] at hword
    omega
  | case3 tag hgt =>
    have hrange : previous + 1 - tag = 0 := by omega
    have hmax : max tag (previous + 1) = tag := by omega
    simp [hrange, hmax]

theorem walkDown?_eq_some (h : tag < 2 ^ 64) :
    walkDown? acked tag = some (lastUnacked acked tag) := by
  induction tag with
  | zero => simp [walkDown?, lastUnacked]
  | succ tag ih =>
    rw [walkDown?, lastUnacked]
    by_cases hacked : tag + 1 ∈ acked
    · simp only [hacked, differenceFits, Nat.succ_pos, and_self, if_true, Nat.le_add_left,
        decide_true]
      exact ih (by omega)
    · simp [hacked]

/-- The walk meets the late failures above `oldest` in ascending order. -/
theorem filter_range'_mem (oldest : Nat) :
    (List.range' (oldest + 1) (previous + 1 - (oldest + 1))).filter (· ∈ shouldNack) =
      shouldNack.toList.filter fun t => oldest < t && t ≤ previous := by
  have hwalk : ((List.range' (oldest + 1) (previous + 1 - (oldest + 1))).filter
      (· ∈ shouldNack)).Pairwise (· < ·) := (List.pairwise_lt_range' ..).filter _
  have hset : (shouldNack.toList.filter fun t => oldest < t && t ≤ previous).Pairwise (· < ·) :=
    shouldNack.ascending.filter _
  refine hwalk.sortedLT.eq_of_mem_iff hset.sortedLT fun t => ?_
  simp only [List.mem_filter, List.mem_range'_1, decide_eq_true_eq, Bool.and_eq_true,
    TagSet.mem_def]
  constructor
  · rintro ⟨hrange, ht⟩
    exact ⟨ht, by omega, by omega⟩
  · rintro ⟨ht, hlow, hhigh⟩
    exact ⟨by omega, ht⟩

/-- No walk leaves the range of a word, and together they find the plan. -/
theorem walkPlan?_eq_some (hprev : previous ≤ last) (hlast : last < 2 ^ 64 - 1)
    (hp : ∀ t ∈ processing, t ≤ last) :
    walkPlan? last previous processing acked shouldNack =
      some (rejectPlan last previous processing acked shouldNack) := by
  cases hmin : processing.min? with
  | none =>
    have hdown : walkDown? acked last = some (lastUnacked acked last) :=
      walkDown?_eq_some (by omega)
    simp [walkPlan?, rejectPlan, batchReject, hmin, hdown]
  | some oldest =>
    have hle := hp oldest (TagSet.mem_of_min? hmin)
    have hword : sumFits oldest 1 = true := by
      simp only [sumFits, decide_eq_true_eq]
      omega
    have hdown : walkDown? acked (oldest - 1) = some (lastUnacked acked (oldest - 1)) :=
      walkDown?_eq_some (by omega)
    have hlate : walkLate? previous shouldNack (oldest + 1) = some _ :=
      walkLate?_eq_some (by omega)
    have hfresh : max (oldest + 1) (previous + 1) = max oldest previous + 1 := by omega
    rw [filter_range'_mem, hfresh] at hlate
    simp [walkPlan?, rejectPlan, batchReject, singleRejects, hmin, hword, hdown, hlate]

end Intercept
