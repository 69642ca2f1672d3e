import Intercept.Proofs.Harness.Courses
import Intercept.Proofs.Harness.Outcomes

/-! What a wait is told when a deadline passes: that its predicate failed if this raised on a delivery
that its waiter evaluated, and a timeout otherwise. -/
namespace Intercept
variable {M : Type}

/-- Whether a predicate failed on a message. -/
def Verdict.raises (v : Verdict) : Bool := v.failureText?.isSome

/-- Why a wait failed whose deadline passed. -/
def HarnessError.reason? (e : HarnessError) : Option TimeoutReason := e.report?.map (·.reason)

theorem addSample_ne_nil (samples : List String) (sample : String) :
    addSample samples sample ≠ [] := by
  rw [addSample]
  split
  · simp
  · next hfull =>
    rintro rfl
    exact hfull (by decide)

namespace Waiter
variable {cfg : Setup M} {v : Waiter M} {body : Body}

/-- Whether the predicate of a waiter raises on a delivery. -/
def raisesOn (cfg : Setup M) (predicate : M → Verdict) (d : Delivery) : Bool :=
  (cfg.format.decode? d.body).any fun m => (predicate m).raises

theorem see_failures {d : Delivery} :
    (v.see (cfg.format.decode? d.body) d.body).predicateFailures = [] ↔
      v.predicateFailures = [] ∧ raisesOn cfg v.predicate d = false := by
  rw [raisesOn]
  cases cfg.format.decode? d.body with
  | none => simp [see, offerMalformed]
  | some m =>
    cases hraised : (v.predicate m).failureText? with
    | none => simp [see, offer, hraised, addSample?, Verdict.raises]
    | some text => simp [see, offer, hraised, addSample?, Verdict.raises, addSample_ne_nil]

/-- A waiter has no sample of a failure exactly if its predicate raised on nothing it was offered. -/
theorem foldl_see_failures {rs : List (Delivery × Option Nat)} :
    (rs.foldl (fun v r => v.see (cfg.format.decode? r.1.body) r.1.body) v).predicateFailures = [] ↔
      v.predicateFailures = [] ∧ ∀ r ∈ rs, raisesOn cfg v.predicate r.1 = false := by
  induction rs generalizing v with
  | nil => simp
  | cons r rest ih =>
    rw [List.foldl_cons, ih, see_failures, see_predicate, List.forall_mem_cons, and_assoc]

theorem timeoutError_eq {report : TimeoutReport} :
    v.predicateFailures = [] ∧ v.timeoutError report = .timeout report ∨
      v.predicateFailures ≠ [] ∧ v.timeoutError report = .predicate report := by
  rw [timeoutError]
  cases hv : v.predicateFailures with
  | nil => exact .inl ⟨rfl, rfl⟩
  | cons _ _ => exact .inr ⟨by simp, rfl⟩

end Waiter

namespace Harness
variable {cfg : Setup M} {allowed : Act M → Prop} {h h' h₁ : Harness M} {s : Nat → Harness M}
  {e : HarnessError} {g i j m n : Nat} {w w' : Wait M} {v : Waiter M}

/-! Who is listed was registered. -/

theorem Visit.joins (hv : h.Visit cfg j w h₁) (hw : h.waits[j]? = some w) (hi : i ∈ h₁.roll)
    (hnot : i ∉ h.roll) : i = j ∧ w.stage = .calling ∧ h.failure = none ∧ h.Registers i w h₁ := by
  have hless : h₁.waiters = (h.unlist j).waiters → i ∈ h.roll := by
    intro heq
    rw [roll, heq] at hi
    exact (List.eraseP_sublist.map _).subset hi
  have hmore : ∀ stage : WaitStage M, stage ≠ .calling → h₁.waiters = h.waiters ++ [w.waiter j] →
      h₁.waits = (h.enterWait j stage).waits → i = j ∧ h.Registers i w h₁ := by
    intro stage hstage hwaiters hwaits
    obtain rfl : i = j := by
      rw [roll, hwaiters, List.map_append, List.mem_append] at hi
      exact List.mem_singleton.1 (hi.resolve_left hnot)
    exact ⟨rfl, hwaiters, hnot, _, hwaits ▸ waits_enterWait_self hw, hstage⟩
  cases hv with
  | turnedAway _ _ _ | accepted _ _ _ | awaited _ | armed _ | finished _ _ _ => exact (hnot hi).elim
  | joined g hs hf _ =>
    obtain ⟨rfl, hreg⟩ := hmore (.starting g) (by simp) rfl rfl
    exact ⟨rfl, hs, hf, hreg⟩
  | created hs hf _ =>
    obtain ⟨rfl, hreg⟩ := hmore (.starting h.generations.length) (by simp) rfl rfl
    exact ⟨rfl, hs, hf, hreg⟩
  | refused _ _ _ _ | left _ => exact (hnot (hless waiters_deregister)).elim
  | expired _ _ _ _ => exact (hnot (hless (waiters_expire cfg hw).1)).elim

theorem waiters_dispose (hp : h.failure = some .disposed → h.waiters = []) :
    h.dispose.waiters = [] := by
  by_cases hf : h.failure = some .disposed
  · rw [dispose_of_disposed hf]
    exact hp hf
  · rw [dispose_eq hf]

theorem roll_of_dispose (hi : i ∈ h.dispose.roll) : i ∈ h.roll := by
  by_cases hf : h.failure = some .disposed
  · rwa [dispose_of_disposed hf] at hi
  · rw [dispose_eq hf] at hi
    cases hi

/-- Whoever comes to the list is registered with this move. -/
theorem Happening.joins (hh : h.Happening cfg h') (hp : h.Paired) (hi : i ∈ h'.roll)
    (hnot : i ∉ h.roll) : ∃ w, h.waits[i]? = some w ∧ w.stage = .calling ∧ h.Registers i w h' := by
  have hlt := hp.exists_current
  have hsame : h'.waiters = h.waiters → i ∈ h.roll := fun heq => by rwa [roll, heq] at hi
  have hnobody : h'.waiters ≠ [] := by
    rintro heq
    rw [roll, heq] at hi
    cases hi
  have hdisposed : h.failure = some .disposed → h.waiters = [] := fun hf =>
    (hp.nobody_of_failure (by simp [hf])).2
  cases hh with
  | ticked | called _ _ _ => exact (hnot hi).elim
  | busy hb =>
    rcases hb.cases hlt with hc | ⟨e, he⟩
    · exact (hnot (hsame hc.waiters)).elim
    · exact (hnobody he.waiters).elim
  | proceeded g stage hpro =>
    rcases hpro.cases hlt with ⟨hq, _⟩ | ⟨e, he⟩
    · exact (hnot (hsame hq.waiters)).elim
    · exact (hnobody he.waiters).elim
  | attached g x _ _ hatt => exact (hnot (hsame (congrArg (·.2.2.1) hatt.older.2.1))).elim
  | handed g d rest x deadline h₁ hs _ hd =>
    have hi' : i ∈ h₁.roll := by
      split at hi <;> exact hi
    exact (hnot (hd.roll_sublist.subset hi')).elim
  | expired g deadline hl => exact (hnobody (waits_expired hlt).2).elim
  | answered x outcome hx _ hans =>
    cases hans with
    | mk h₁ hb hc _ =>
      have hwaiters : h'.waiters = h₁.waiters := hc.waiters
      rcases hb.cases hlt with hc' | ⟨e, he⟩
      · exact (hnot (hsame (hwaiters.trans hc'.waiters))).elim
      · exact (hnobody (hwaiters.trans he.waiters)).elim
  | visited j u h₁ hu hv hend =>
    have heq : h' = h₁ := by
      rcases eq_or_dispose hend with heq | rfl
      · exact heq
      · obtain ⟨_, _, hf, _⟩ := hv.joins hu (roll_of_dispose hi) hnot
        exact (hnobody (waiters_dispose (by simp [hv.visited.failure, hf]))).elim
    subst heq
    obtain ⟨rfl, hs, _, hreg⟩ := hv.joins hu hi hnot
    exact ⟨u, hu, hs, hreg⟩
  | disposed => exact (hnobody (waiters_dispose hdisposed)).elim
  | dropped =>
    rcases disposeIfUnowned_cases { h with dropped := true } with heq | heq
    · rw [heq] at hi
      exact (hnot hi).elim
    · rw [heq] at hnobody
      exact (hnobody (waiters_dispose hdisposed)).elim

/-- Whoever is listed was registered at some time. -/
theorem Run.registered (hr : Run cfg allowed s) (hi : i ∈ (s n).roll) :
    ∃ m < n, ∃ w, (s m).waits[i]? = some w ∧ (s m).Registers i w (s (m + 1)) := by
  induction n with
  | zero =>
    rw [hr.start] at hi
    cases hi
  | succ n ih =>
    by_cases hbefore : i ∈ (s n).roll
    · obtain ⟨m, hm, hreg⟩ := ih hbefore
      exact ⟨m, by omega, hreg⟩
    · obtain ⟨w, hw, _, hreg⟩ := (hr.happening n).joins (hr.paired n) hi hbefore
      exact ⟨n, Nat.lt_succ_self n, w, hw, hreg⟩

/-- The predicate of a wait raised on a delivery that was offered to it: one that nobody took who was
registered before. -/
def Raised (cfg : Setup M) (s : Nat → Harness M) (n i : Nat) : Prop :=
  ∃ m < n, ∃ w, (s m).waits[i]? = some w ∧ (s m).Registers i w (s (m + 1)) ∧
    ∃ r ∈ routings s (m + 1) n, getsPast (s m).roll r = true ∧ Waiter.raisesOn cfg w.predicate r.1 = true

/-- A listed waiter has a sample of a failure exactly if its predicate raised. -/
theorem Run.raised_iff (hr : Run cfg allowed s) (hv : v ∈ (s n).waiters) (hi : v.id = i) :
    Raised cfg s n i ↔ v.predicateFailures ≠ [] := by
  have hoffered : ∀ {m : Nat} {w : Wait M}, m < n → (s m).Registers i w (s (m + 1)) →
      (v.predicateFailures = [] ↔ ∀ r ∈ (routings s (m + 1) n).filter (getsPast (s m).roll),
        Waiter.raisesOn cfg w.predicate r.1 = false) := by
    intro m w hm hreg
    rw [hr.offered hreg hm hv hi, Waiter.foldl_see_failures]
    exact and_iff_right rfl
  constructor
  · rintro ⟨m, hm, w, _, hreg, r, hr', hpast, hraises⟩ hnil
    have hfalse := (hoffered hm hreg).1 hnil r (List.mem_filter.2 ⟨hr', hpast⟩)
    rw [hraises] at hfalse
    cases hfalse
  · intro hne
    obtain ⟨m, hm, w, hw, hreg⟩ := hr.registered (mem_roll_of_mem hv hi)
    have hsome := mt (hoffered hm hreg).2 hne
    push Not at hsome
    obtain ⟨r, hmem, hraises⟩ := hsome
    obtain ⟨hr', hpast⟩ := List.mem_filter.1 hmem
    exact ⟨m, hm, w, hw, hreg, r, hr', hpast, by simpa using hraises⟩

/-- What a wait is told whose deadline passed. -/
def Reported (cfg : Setup M) (s : Nat → Harness M) (n i : Nat) (reason : TimeoutReason)
    (e : HarnessError) : Prop :=
  ∃ report : TimeoutReport, report.reason = reason ∧
    (Raised cfg s n i ∧ e = .predicate report ∨ ¬ Raised cfg s n i ∧ e = .timeout report)

theorem Run.reported (hr : Run cfg allowed s) (hv : v ∈ (s n).waiters) (hi : v.id = i)
    (report : TimeoutReport) : Reported cfg s n i report.reason (v.timeoutError report) := by
  refine ⟨report, rfl, ?_⟩
  rw [hr.raised_iff hv hi]
  exact v.timeoutError_eq.symm.imp_right fun ⟨hnil, heq⟩ => ⟨not_not.2 hnil, heq⟩

/-! What the outcome of a wait is not. -/

theorem none_resolveAll {error : Waiter M → HarnessError} (hnone : h.waits[i]? = none) :
    (resolveAll h.waits h.waiters error)[i]? = none := by
  rw [resolveAll_eq, hnone]
  rfl

theorem none_dispose (hnone : h.waits[i]? = none) : h.dispose.waits[i]? = none := by
  by_cases hf : h.failure = some .disposed
  · rw [dispose_of_disposed hf, hnone]
  · rw [dispose_eq hf]
    exact none_resolveAll hnone

theorem none_disposeIfUnowned (hnone : h.waits[i]? = none) :
    h.disposeIfUnowned.waits[i]? = none := by
  rcases disposeIfUnowned_cases h with heq | heq
  · rw [heq, hnone]
  · rw [heq, none_dispose hnone]

theorem Business.none (hb : h.Business h') (hlt : ∀ g, h.current = some g → g < h.generations.length)
    (hnone : h.waits[i]? = none) : h'.waits[i]? = none := by
  rcases hb.cases hlt with hc | ⟨e, he⟩
  · rw [hc.waits, hnone]
  · rw [he.waits, none_resolveAll hnone]

/-- A wait comes into being without an outcome. -/
theorem Happening.newcomer (hh : h.Happening cfg h')
    (hlt : ∀ g, h.current = some g → g < h.generations.length) (hnone : h.waits[i]? = none)
    (hw : h'.waits[i]? = some w) : w.stage = .calling ∧ w.outcome = .pending := by
  have hsame : h'.waits[i]? ≠ none := by simp [hw]
  cases hh with
  | ticked => exact (hsame hnone).elim
  | busy hb => exact (hsame (hb.none hlt hnone)).elim
  | proceeded g stage hp =>
    rcases hp.cases hlt with ⟨hq, _⟩ | ⟨e, he⟩
    · exact (hsame (hq.waits ▸ hnone)).elim
    · exact (hsame (he.waits ▸ none_resolveAll hnone)).elim
  | attached g x _ _ hatt => exact (hsame (congrArg (·.2.1[i]?) hatt.older.2.1 ▸ hnone)).elim
  | handed g d rest x deadline h₁ _ _ hd =>
    have heq : h₁.waits = h.waits := by cases hd <;> rfl
    refine (hsame ?_).elim
    split <;> exact heq ▸ hnone
  | expired g deadline _ => exact (hsame ((waits_expired hlt).1 ▸ none_resolveAll hnone)).elim
  | answered x outcome _ _ ha =>
    cases ha with
    | mk h₁ hb hc _ =>
      have heq : h'.waits = (h₁.complete x.wait outcome).waits := hc.waits
      refine (hsame ?_).elim
      rw [heq, complete, changeWait, List.getElem?_modify, hb.none hlt hnone]
      rfl
  | called u hs ho =>
    have hw' : (h.waits ++ [u])[i]? = some w := hw
    rw [List.getElem?_append_right (List.getElem?_eq_none_iff.1 hnone)] at hw'
    obtain rfl := List.mem_singleton.1 (List.mem_of_getElem? hw')
    exact ⟨hs, ho⟩
  | visited j u h₁ hu hv hend =>
    obtain ⟨stage, hwaits⟩ := hv.visited.waits
    have hnone₁ : h₁.waits[i]? = none := by
      rw [hwaits, enterWait, changeWait, List.getElem?_modify, hnone]
      rfl
    rcases hend with rfl | rfl
    · exact (hsame hnone₁).elim
    · exact (hsame (none_disposeIfUnowned hnone₁)).elim
  | disposed => exact (hsame (none_dispose hnone)).elim
  | dropped => exact (hsame (none_disposeIfUnowned (h := { h with dropped := true }) hnone)).elim

/-- What holds of a wait as it comes, and is kept by each move, holds of it at all times. -/
theorem Run.wait_induction {P : Nat → Wait M → Prop} (hr : Run cfg allowed s)
    (hnew : ∀ n w, w.stage = .calling → w.outcome = .pending → P n w)
    (hnext : ∀ n u w, (s n).waits[i]? = some u → (s (n + 1)).waits[i]? = some w →
      (s n).Course cfg (s (n + 1)) i u w → P n u → P (n + 1) w)
    (hw : (s n).waits[i]? = some w) : P n w := by
  induction n generalizing w with
  | zero =>
    rw [hr.start] at hw
    cases hw
  | succ n ih =>
    cases hu : (s n).waits[i]? with
    | none =>
      obtain ⟨hcalling, hpending⟩ := (hr.happening n).newcomer (hr.current_lt n) hu hw
      exact hnew _ w hcalling hpending
    | some u =>
      obtain ⟨w', hw', hcourse⟩ := hr.course n hu
      obtain rfl := Option.some.inj (hw.symm.trans hw')
      exact hnext n u w hu hw hcourse (ih hu)

theorem reason_of_terminal (he : e.isTerminal = true) : e.reason? = none := by
  cases e <;> first | rfl | cases he

end Harness
end Intercept
