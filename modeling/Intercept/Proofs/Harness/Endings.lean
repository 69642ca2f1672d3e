import Intercept.Proofs.Harness.Collapse
import Intercept.Proofs.Harness.Deadlines

/-! A harness comes to its end once, and stays there. -/
namespace Intercept.Harness
variable {M : Type} {cfg : Setup M} {allowed : Act M → Prop} {h h' h₁ : Harness M}
  {s : Nat → Harness M} {e : HarnessError} {g i k m n : Nat} {w w' : Wait M}

/-! What holds at all times. -/

theorem Dispatched.lives {deadline : Option Nat} {d : Delivery} {rest : List Delivery}
    (hd : h.Dispatched cfg g deadline d rest h') : h'.lives = h.lives := by
  cases hd <;> exact lives_changeGeneration fun _ => rfl

theorem Dispatched.count {deadline : Option Nat} {d : Delivery} {rest : List Delivery}
    (hd : h.Dispatched cfg g deadline d rest h') :
    h'.generations.length = h.generations.length := by
  simpa only [Harness.lives, List.length_map] using congrArg List.length hd.lives

theorem Dispatched.broker {deadline : Option Nat} {d : Delivery} {rest : List Delivery}
    (hd : h.Dispatched cfg g deadline d rest h') : h'.broker = h.broker := by
  cases hd <;> rfl

theorem Run.ages (hr : Run cfg allowed s) (n k : Nat) :
    ((s n).life k).Ages ((s (n + 1)).life k) := by
  rcases (hr.happening n).older_or_handed with ho | ⟨g, d, rest, x, deadline, h₁, _, _, hd, heq⟩
  · exact ho.lives k
  · rw [heq, life_eq (h := s n), ← hd.lives, ← life_eq]
    split
    · exact life_changeLife_rel (fun _ => .refl) Lifecycle.ages_stop
    · exact .refl

theorem Run.onward (hr : Run cfg allowed s) (n : Nat) :
    (s n).broker.Onward (s (n + 1)).broker := by
  rcases (hr.happening n).older_or_handed with ho | ⟨g, d, rest, x, deadline, h₁, _, _, hd, heq⟩
  · exact ho.broker
  · rw [heq, ← hd.broker]
    split <;> exact .refl

theorem Run.onward_of_le (hr : Run cfg allowed s) (hle : m ≤ n) :
    (s m).broker.Onward (s n).broker := by
  induction n, hle using Nat.le_induction with
  | base => exact .refl
  | succ n _ ih => exact ih.trans (hr.onward n)

/-- The answer to those who wait for a generation stays the same. -/
theorem Run.started_of_le {r : Except HarnessError Unit} (hr : Run cfg allowed s) (hle : m ≤ n)
    (hs : ((s m).life g).started = .resolved r) : ((s n).life g).started = .resolved r := by
  induction n, hle using Nat.le_induction with
  | base => exact hs
  | succ n _ ih => exact (hr.ages n g).started r ih

/-- Whoever comes to wait for a generation waits for one that exists. -/
theorem Visit.founded (hv : h.Visit cfg i w h₁) (hs : w.stage = .calling)
    (hlt : ∀ g, h.current = some g → g < h.generations.length) (hw : h.waits[i]? = some w)
    (hw₁ : h₁.waits[i]? = some w') (hs' : w'.stage = .starting g) : g < h₁.generations.length := by
  have hleft : (h.deregister i).waits[i]? = some w := by rw [waits_deregister, hw]
  cases hv with
  | turnedAway e _ _ =>
    rw [stage_enterWait hw hw₁] at hs'
    cases hs'
  | joined k _ _ hj =>
    rw [stage_enterWait (h := { h with waiters := _ }) hw hw₁] at hs'
    cases hs'
    exact hlt g (Option.eq_some_of_filter_eq_some hj)
  | created _ _ _ =>
    rw [stage_enterWait
      (h := { h with waiters := _, generations := _, current := some h.generations.length }) hw hw₁]
      at hs'
    cases hs'
    change _ < (h.generations ++ [({ stage := .created h.current } : Generation)]).length
    rw [List.length_append]
    exact Nat.lt_succ_self _
  | left _ =>
    rw [stage_enterWait hleft hw₁] at hs'
    cases hs'
  | accepted _ hst _ | refused _ _ hst _ | awaited hst | armed hst | expired _ hst _ _ =>
    rw [hs] at hst
    cases hst
  | finished _ hst _ =>
    rcases hst with ⟨_, hst⟩ | hst <;>
      · rw [hs] at hst
        cases hst

theorem Run.length_le (hr : Run cfg allowed s) (n : Nat) :
    (s n).generations.length ≤ (s (n + 1)).generations.length := by
  rcases (hr.happening n).older_or_handed with ho | ⟨g, d, rest, x, deadline, h₁, _, _, hd, heq⟩
  · exact ho.length
  · rw [heq, ← hd.count]
    split
    · exact Nat.le_of_eq length_changeGeneration.symm
    · exact Nat.le_refl _

theorem Run.founded (hr : Run cfg allowed s) (n : Nat) : (s n).Founded := by
  refine ⟨fun k => ?_, fun i w g hw => ?_⟩
  · induction n with
    | zero =>
      rw [hr.start]
      exact Lifecycle.frank_initial
    | succ n ih => exact (hr.ages n k).frank ih
  · refine hr.wait_induction (i := i)
      (P := fun n w => w.stage = .starting g → g < (s n).generations.length)
      (fun n w hcalling _ hs => ?_) (fun n u w hu hw hcourse ih hs => ?_) hw
    · rw [hcalling] at hs
      cases hs
    · rcases hcourse.stage with hsame | ⟨h₁, hv, hend, w₁, hw₁, hstage⟩
      · exact Nat.lt_of_lt_of_le (ih (hsame.symm.trans hs)) (hr.length_le n)
      · rw [hstage] at hs
        have hadvances := hv.advances hu hw₁
        rw [hs] at hadvances
        cases hadvances with
        | starting _ hcalling =>
          have hlt := hv.founded hcalling (hr.current_lt n) hu hw₁ hs
          rcases hend with heq | heq
          · rwa [heq]
          · rwa [heq, length_dispose]

/-! The end is final. -/

theorem Run.ending (hr : Run cfg allowed s) (n : Nat) :
    (s (n + 1)).failure = (s n).failure ∨ (s n).Ending cfg (s (n + 1)) :=
  (hr.happening n).ending (hr.current_lt n)

/-- Once the harness has failed, all that may still happen is that it is disposed of. -/
theorem Run.failure_succ (hr : Run cfg allowed s) (n : Nat) (hf : (s n).failure ≠ none) :
    (s (n + 1)).failure = (s n).failure ∨
      (s n).Ending cfg (s (n + 1)) ∧ (s n).failure ≠ some .disposed ∧
        (s (n + 1)).failure = some .disposed := by
  rcases hr.ending n with hsame | hend
  · exact .inl hsame
  · rcases hend.failure with ⟨hnone, _⟩ | hdisposed
    · exact (hf hnone).elim
    · exact .inr ⟨hend, hdisposed⟩

theorem Run.failure_of_le (hr : Run cfg allowed s) (hle : m ≤ n) (hf : (s m).failure = some e) :
    (s n).failure = some e ∨ (s n).failure = some .disposed := by
  induction n, hle using Nat.le_induction with
  | base => exact .inl hf
  | succ n _ ih =>
    have hne : (s n).failure ≠ none := by rcases ih with ih | ih <;> simp [ih]
    rcases hr.failure_succ n hne with hsame | ⟨_, _, hdisposed⟩
    · rwa [hsame]
    · exact .inr hdisposed

theorem Run.failed_of_le (hr : Run cfg allowed s) (hle : m ≤ n) (hf : (s m).failure ≠ none) :
    (s n).failure ≠ none := by
  obtain ⟨e, he⟩ := Option.ne_none_iff_exists'.1 hf
  rcases hr.failure_of_le hle he with hn | hn <;> simp [hn]

/-- Whoever has failed has released the channel. -/
theorem Run.released (hr : Run cfg allowed s) (hf : (s n).failure ≠ none) :
    (s n).broker.disposed = true := by
  induction n with
  | zero =>
    rw [hr.start] at hf
    exact (hf rfl).elim
  | succ n ih =>
    rcases hr.ending n with hsame | hend
    · exact ((hr.onward n).released (ih (hsame ▸ hf))).1
    · exact hend.released

end Intercept.Harness
