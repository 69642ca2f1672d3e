import Mathlib.Data.List.Sort
import Intercept.Proofs.Ledger.Bookkeeping

/-! A ledger that never forgets an acknowledged tag. Its answers are those of a ledger that forgets
at every teardown, so nobody can tell how much is forgotten. -/
namespace Intercept

theorem IsLast.unique {s : Set Nat} {m n : Nat} (hm : IsLast s m) (hn : IsLast s n) : m = n := by
  obtain hm | ⟨hempty, rfl⟩ := hm
  · obtain hn | ⟨hempty, _⟩ := hn
    · exact hm.unique hn
    · have hmem := hm.1
      rw [hempty] at hmem
      exact hmem.elim
  · obtain hn | ⟨_, rfl⟩ := hn
    · have hmem := hn.1
      rw [hempty] at hmem
      exact hmem.elim
    · rfl

/-- A plan depends on the acknowledged tags only through what is due. -/
theorem rejectPlan_congr {last previous : Nat} {processing acked acked' shouldNack : TagSet}
    (hprev : previous ≤ last) (hproc : ∀ t ∈ processing, 0 < t ∧ t ≤ last)
    (hs : ∀ t ∈ shouldNack, 0 < t) (hd : ∀ t ∈ shouldNack, t ∉ acked ∧ t ∉ processing)
    (hd' : ∀ t ∈ shouldNack, t ∉ acked' ∧ t ∉ processing)
    (hdue : ∀ t, Due last previous processing acked shouldNack t ↔
      Due last previous processing acked' shouldNack t) :
    rejectPlan last previous processing acked shouldNack =
      rejectPlan last previous processing acked' shouldNack := by
  have heq : ∀ p q : RejectPlan, p.multiple = q.multiple → p.single = q.single → p = q := by
    rintro ⟨_, _⟩ ⟨_, _⟩ rfl rfl
    rfl
  cases hmin : processing.min? with
  | none =>
    have hp := TagSet.min?_eq_none_iff.1 hmin
    obtain ⟨hlast, hsingle⟩ := @rejectPlan_of_empty last previous processing acked shouldNack hs hd hp
    obtain ⟨hlast', hsingle'⟩ := @rejectPlan_of_empty last previous processing acked' shouldNack hs hd' hp
    simp only [← hdue] at hlast'
    exact heq _ _ (hlast.unique hlast') (hsingle.trans hsingle'.symm)
  | some oldest =>
    have ho := TagSet.min?_eq_some_iff.1 hmin
    obtain ⟨hlast, hsorted, hsingle⟩ := rejectPlan_of_oldest hprev hproc hs hd ho
    obtain ⟨hlast', hsorted', hsingle'⟩ := rejectPlan_of_oldest hprev hproc hs hd' ho
    simp only [← hdue] at hlast' hsingle'
    apply heq _ _ (hlast.unique hlast')
    apply hsorted.eq_of_mem_iff hsorted'
    intro t
    rw [hsingle, hsingle']

/-- What a ledger answers to an operation. -/
inductive LedgerAnswer where
  | done
  | finished (result : Except LedgerError Unit)
  | plan (plan : RejectPlan)

namespace Ledger
variable {l w l' w' : Ledger} {claimed : Set Nat} {op : LedgerOp} {ops : List LedgerOp} {t : Nat}
  {forgetful forgetful' : Ledger → RejectPlan × Ledger}

/-- Hands out the rejects that are due, as `teardown` does, but forgets no acknowledged tag. -/
def teardownUntrimmed (l : Ledger) : RejectPlan × Ledger :=
  (l.plan, { l with shouldNack := ∅, previouslyNackedThrough := l.lastObserved })

/-- One operation on a ledger whose teardowns are the given ones. -/
def perform (teardown : Ledger → RejectPlan × Ledger) (l : Ledger) : LedgerOp → Ledger × LedgerAnswer
  | .observe tag => (l.observe tag, .done)
  | .start tag => (l.startProcessing tag, .done)
  | .finish tag settlement =>
    match l.endProcessing tag settlement with
    | .ok l => (l, .finished (.ok ()))
    | .error e => (l, .finished (.error e))
  | .teardown => ((teardown l).2, .plan (teardown l).1)

/-- The ledger after a sequence of operations, and its answers. -/
def performAll (teardown : Ledger → RejectPlan × Ledger) (l : Ledger) :
    List LedgerOp → Ledger × List LedgerAnswer
  | [] => (l, [])
  | op :: ops =>
    let (l, answer) := l.perform teardown op
    let (l, answers) := l.performAll teardown ops
    (l, answer :: answers)

/-- Tags are observed one after the other, a claim takes a tag that came after the latest teardown
and was never claimed, and only what is being processed ends. -/
def Admits (l : Ledger) (claimed : Set Nat) : LedgerOp → Prop
  | .observe tag => tag = l.lastObserved + 1
  | .start tag => l.previouslyNackedThrough < tag ∧ tag ≤ l.lastObserved ∧ tag ∉ claimed
  | .finish tag _ => tag ∈ l.processing
  | .teardown => True

/-- The claimed tags after an operation. -/
def claims (claimed : Set Nat) : LedgerOp → Set Nat
  | .start tag => insert tag claimed
  | _ => claimed

/-- Every operation of a sequence is admitted as its turn comes. -/
def Disciplined (l : Ledger) (claimed : Set Nat) : List LedgerOp → Prop
  | [] => True
  | op :: ops => l.Admits claimed op ∧ (l.perform teardown op).1.Disciplined (claims claimed op) ops

/-- A teardown that may forget acknowledged tags. -/
def Forgets (forgetful : Ledger → RejectPlan × Ledger) : Prop :=
  ∀ l, ∃ acked : TagSet, (∀ t ∈ acked, t ∈ l.acked) ∧ forgetful l = (l.plan,
    { l with acked, shouldNack := ∅, previouslyNackedThrough := l.lastObserved })

theorem forgets_teardown : Forgets teardown :=
  fun l => ⟨l.retained, fun _ => acked_of_retained, rfl⟩

theorem forgets_teardownUntrimmed : Forgets teardownUntrimmed := fun l => ⟨l.acked, fun _ ht => ht, rfl⟩

/-- The sets of a ledger hold delivered tags, do not overlap, and hold claimed tags only. -/
structure Tended (l : Ledger) (claimed : Set Nat) : Prop where
  sound : l.Sound
  within : l.Within claimed

theorem tended_initial : ({} : Ledger).Tended claimed := ⟨sound_initial, within_initial⟩

theorem Tended.forget (h : l.Tended claimed) (hf : Forgets forgetful) :
    (forgetful l).2.Tended claimed := by
  obtain ⟨acked, hsub, heq⟩ := hf l
  have hs := h.sound
  rw [heq]
  refine ⟨⟨Nat.le_refl _, hs.processing_delivered, ?_, ?_, ?_, ?_⟩, ⟨h.within.processing, ?_, ?_⟩⟩
  · simp
  · exact fun t ht => hs.acked_delivered t (hsub t ht)
  · simp
  · exact fun t ht => hs.acked_apart t (hsub t ht)
  · exact fun t ht => h.within.acked t (hsub t ht)
  · simp

theorem Tended.perform (h : l.Tended claimed) (hf : Forgets forgetful) (ha : l.Admits claimed op) :
    (l.perform forgetful op).1.Tended (claims claimed op) := by
  cases op with
  | observe tag =>
    obtain rfl : tag = l.lastObserved + 1 := ha
    exact ⟨h.sound.observe, h.within.processing, h.within.acked, h.within.shouldNack⟩
  | start tag =>
    obtain ⟨hlt, hle, hfree⟩ := ha
    obtain ⟨hdue, hs⟩ := h.within.due hlt hle hfree
    refine ⟨h.sound.startProcessing hdue hs, h.within.startProcessing ?_ (Set.mem_insert ..)⟩
    exact Set.subset_insert ..
  | finish tag settlement =>
    obtain ⟨l', hl', he⟩ := endProcessing_of_mem ha settlement
    simp only [Ledger.perform, hl']
    exact ⟨h.sound.ended he, h.within.ended he⟩
  | teardown => exact h.forget hf

/-- Two ledgers differ at most in which tags they remember as acknowledged that the latest teardown
has passed. -/
structure Aligned (l w : Ledger) : Prop where
  processing : l.processing = w.processing
  shouldNack : l.shouldNack = w.shouldNack
  lastObserved : l.lastObserved = w.lastObserved
  previous : l.previouslyNackedThrough = w.previouslyNackedThrough
  acked : ∀ t, l.previouslyNackedThrough < t → (t ∈ l.acked ↔ t ∈ w.acked)

theorem Aligned.refl : l.Aligned l := ⟨rfl, rfl, rfl, rfl, fun _ _ => Iff.rfl⟩

theorem Aligned.admits (h : l.Aligned w) (ha : l.Admits claimed op) : w.Admits claimed op := by
  cases op with
  | observe tag =>
    rw [Admits, ← h.lastObserved]
    exact ha
  | start tag =>
    rw [Admits, ← h.previous, ← h.lastObserved]
    exact ha
  | finish tag settlement =>
    rw [Admits, ← h.processing]
    exact ha
  | teardown => trivial

/-- What the latest teardown has passed is due for a late failure alone, acknowledged or not. -/
theorem Aligned.plan (h : l.Aligned w) (hl : l.Sound) (hw : w.Sound) : l.plan = w.plan := by
  have hd' := hw.shouldNack_apart
  have hacked := h.acked
  rw [Ledger.plan, Ledger.plan]
  rw [← h.processing, ← h.shouldNack] at hd'
  rw [← h.processing, ← h.shouldNack, ← h.lastObserved, ← h.previous]
  apply rejectPlan_congr hl.previous_le hl.processing_delivered hl.shouldNack_pos hl.shouldNack_apart
    hd'
  intro t
  have hcongr : l.previouslyNackedThrough < t ∧ t ∉ l.acked ∧ t ∉ l.processing ↔
      l.previouslyNackedThrough < t ∧ t ∉ w.acked ∧ t ∉ l.processing :=
    and_congr_right fun hlt => and_congr_left fun _ => not_congr (hacked t hlt)
  rw [Intercept.Due, Intercept.Due, hcongr]

theorem Aligned.endProcessing {tag : Nat} (settlement : Settlement) (h : l.Aligned w)
    (ht : tag ∈ l.processing) :
    ∃ l' w', l.endProcessing tag settlement = .ok l' ∧ w.endProcessing tag settlement = .ok w' ∧
      l'.Aligned w' := by
  have htw : tag ∈ w.processing := h.processing ▸ ht
  rw [Ledger.endProcessing, Ledger.endProcessing, if_pos ht, if_pos htw]
  refine ⟨_, _, rfl, rfl, ?_⟩
  have hprocessing : l.processing.erase tag = w.processing.erase tag := by rw [h.processing]
  cases settlement with
  | acked =>
    refine ⟨hprocessing, h.shouldNack, h.lastObserved, h.previous, fun t hlt => ?_⟩
    rw [TagSet.mem_insert, TagSet.mem_insert, h.acked t hlt]
  | shouldNack =>
    refine ⟨hprocessing, ?_, h.lastObserved, h.previous, h.acked⟩
    change l.shouldNack.insert tag = w.shouldNack.insert tag
    rw [h.shouldNack]
  | alreadyNacked => exact ⟨hprocessing, h.shouldNack, h.lastObserved, h.previous, h.acked⟩

/-- An operation gets the same answer from both, and they stay aligned. -/
theorem Aligned.perform (h : l.Aligned w) (hl : l.Tended claimed) (hw : w.Tended claimed)
    (hf : Forgets forgetful) (hf' : Forgets forgetful') (ha : l.Admits claimed op) :
    (l.perform forgetful op).1.Aligned (w.perform forgetful' op).1 ∧
      (l.perform forgetful op).2 = (w.perform forgetful' op).2 := by
  cases op with
  | observe tag =>
    refine ⟨⟨h.processing, h.shouldNack, ?_, h.previous, h.acked⟩, rfl⟩
    change max l.lastObserved tag = max w.lastObserved tag
    rw [h.lastObserved]
  | start tag =>
    refine ⟨⟨?_, h.shouldNack, h.lastObserved, h.previous, h.acked⟩, rfl⟩
    change l.processing.insert tag = w.processing.insert tag
    rw [h.processing]
  | finish tag settlement =>
    obtain ⟨l', w', hl', hw', h'⟩ := h.endProcessing settlement ha
    simp only [Ledger.perform, hl', hw']
    exact ⟨h', trivial⟩
  | teardown =>
    obtain ⟨acked, hsub, heq⟩ := hf l
    obtain ⟨acked', hsub', heq'⟩ := hf' w
    simp only [Ledger.perform, heq, heq', h.plan hl.sound hw.sound, and_true]
    refine ⟨h.processing, rfl, h.lastObserved, h.lastObserved, fun t hlt => ?_⟩
    -- Every acknowledged tag has been passed now.
    have hnot : t ∉ acked := fun ht => by
      have := hl.sound.acked_delivered t (hsub t ht)
      change l.lastObserved < t at hlt
      omega
    have hnot' : t ∉ acked' := fun ht => by
      have := hw.sound.acked_delivered t (hsub' t ht)
      have hlast := h.lastObserved
      change l.lastObserved < t at hlt
      omega
    exact iff_of_false hnot hnot'

theorem Aligned.performAll (h : l.Aligned w) (hl : l.Tended claimed) (hw : w.Tended claimed)
    (hf : Forgets forgetful) (hd : l.Disciplined claimed ops) :
    (l.performAll teardown ops).2 = (w.performAll forgetful ops).2 := by
  induction ops generalizing l w claimed with
  | nil => rfl
  | cons op ops ih =>
    obtain ⟨ha, hd⟩ := hd
    obtain ⟨hnext, hanswer⟩ := h.perform hl hw forgets_teardown hf ha
    have hl' := hl.perform forgets_teardown ha
    have hw' := hw.perform hf (h.admits ha)
    simp only [Ledger.performAll]
    rw [hanswer, ih hnext hl' hw' hd]

/-- What is still remembered as acknowledged lies above the oldest tag in processing. -/
theorem retained_above (ht : t ∈ l.retained) :
    ∃ oldest, IsLeast {t | t ∈ l.processing} oldest ∧ oldest ≤ t := by
  rw [retained] at ht
  split at ht
  · exact (TagSet.not_mem_empty t ht).elim
  · next oldest hmin =>
    exact ⟨oldest, TagSet.min?_eq_some_iff.1 hmin, of_decide_eq_true (TagSet.mem_filter.1 ht).2⟩

theorem performAll_concat {teardown : Ledger → RejectPlan × Ledger} :
    (l.performAll teardown (ops ++ [op])).1 =
      ((l.performAll teardown ops).1.perform teardown op).1 := by
  induction ops generalizing l with
  | nil => rfl
  | cons first ops ih => exact ih

/-- A ledger that forgets at its teardowns gives the same plans and the same results as one that
never forgets an acknowledged tag. Right after a teardown no failure is left to reject, and only
acknowledged tags above the oldest one in processing are remembered, so none if nothing is being
processed. -/
theorem forgetting_is_invisible (hd : ({} : Ledger).Disciplined ∅ ops) :
    (({} : Ledger).performAll teardown ops).2 = (({} : Ledger).performAll teardownUntrimmed ops).2 ∧
    ∀ before after, ops = before ++ .teardown :: after → ∀ l,
      (({} : Ledger).performAll teardown (before ++ [.teardown])).1 = l →
      (∀ t, t ∉ l.shouldNack) ∧
      (∀ t ∈ l.acked, ∃ oldest, IsLeast {t | t ∈ l.processing} oldest ∧ oldest ≤ t) ∧
      ((∀ t, t ∉ l.processing) → ∀ t, t ∉ l.acked) := by
  constructor
  · exact Aligned.refl.performAll tended_initial tended_initial forgets_teardownUntrimmed hd
  · rintro before _ _ l rfl
    rw [performAll_concat]
    generalize (({} : Ledger).performAll teardown before).1 = l
    refine ⟨TagSet.not_mem_empty, fun t ht => retained_above (l := l) ht, fun hnone t ht => ?_⟩
    obtain ⟨oldest, holdest, _⟩ := retained_above (l := l) ht
    exact hnone oldest holdest.1

/-- Three claims that are acknowledged, the first of them before a teardown that forgets it. The batch
of the last teardown then stops short of that tag, where it would have gone on. -/
def threeClaims : List LedgerOp :=
  [.observe 1, .observe 2, .observe 3, .start 1, .start 2, .start 3, .finish 1 .acked, .teardown,
    .finish 3 .acked, .finish 2 .acked, .teardown]

theorem threeClaims_answered : ({} : Ledger).Disciplined ∅ threeClaims ∧
    (({} : Ledger).performAll teardownUntrimmed threeClaims).1.acked.toList = [1, 2, 3] ∧
    (({} : Ledger).performAll teardown threeClaims).1.acked.toList = [] ∧
    (({} : Ledger).performAll teardown threeClaims).2 =
      (({} : Ledger).performAll teardownUntrimmed threeClaims).2 := by
  have hd : ({} : Ledger).Disciplined ∅ threeClaims := by
    simp [threeClaims, Disciplined, Admits, claims]
    decide
  exact ⟨hd, by decide, by decide, (forgetting_is_invisible hd).1⟩

end Ledger
end Intercept
