import Intercept.Proofs.Harness.Reports

/-! The clock, and how the caller of a wait goes on as time passes. -/
namespace Intercept.Harness
variable {M : Type} {cfg : Setup M} {allowed : Act M → Prop} {h h' h₁ : Harness M}
  {s : Nat → Harness M} {i m n : Nat} {t : Task} {w w' w₁ : Wait M}

theorem clock_dispose : h.dispose.clock = h.clock := by
  by_cases hf : h.failure = some .disposed
  · rw [dispose_of_disposed hf]
  · exact congrArg (·.1) (dispose_view hf)

theorem clock_disposeIfUnowned : h.disposeIfUnowned.clock = h.clock := by
  rcases disposeIfUnowned_cases h with heq | heq
  · rw [heq]
  · rw [heq, clock_dispose]

theorem Business.clock (hb : h.Business h')
    (hlt : ∀ g, h.current = some g → g < h.generations.length) : h'.clock = h.clock := by
  rcases hb.cases hlt with hc | ⟨e, hf⟩
  · exact hc.clock
  · exact hf.clock

theorem Proceeds.clock {g : Nat} {stage : Stage} (hp : h.Proceeds g stage h')
    (hlt : ∀ g, h.current = some g → g < h.generations.length) : h'.clock = h.clock := by
  rcases hp.cases hlt with ⟨hq, _⟩ | ⟨e, hf⟩
  · exact hq.clock
  · exact hf.clock

/-- Either the clock ticks and nothing else happens, or it stands still. -/
theorem Happening.clock (hh : h.Happening cfg h')
    (hlt : ∀ g, h.current = some g → g < h.generations.length) :
    h'.clock = h.clock ∨ h' = { h with clock := h.clock + 1 } := by
  cases hh with
  | ticked => exact .inr rfl
  | busy hb => exact .inl (hb.clock hlt)
  | proceeded g stage hp => exact .inl (hp.clock hlt)
  | attached g x _ _ ha => exact .inl (congrArg (·.1) ha.older.2.1)
  | handed g d rest x deadline h₁ _ _ hd =>
    have hsame : h₁.clock = h.clock := by cases hd <;> rfl
    left
    split <;> exact hsame
  | expired g deadline _ =>
    refine .inl ((proceeds_leave.clock (current_lt_expireAll hlt)).trans ?_)
    rw [expireAll_cleared]
    rfl
  | answered x outcome _ _ ha =>
    cases ha with
    | mk h₁ hb hc _ => exact .inl (hc.clock.trans (hb.clock hlt))
  | called w _ _ => exact .inl rfl
  | visited j u h₁ _ hv hend =>
    rcases hend with rfl | rfl
    · exact .inl hv.visited.clock
    · exact .inl (clock_disposeIfUnowned.trans hv.visited.clock)
  | disposed => exact .inl clock_dispose
  | dropped => exact .inl clock_disposeIfUnowned

theorem Run.clock_succ (hr : Run cfg allowed s) (n : Nat) :
    (s (n + 1)).clock = (s n).clock ∨ s (n + 1) = { s n with clock := (s n).clock + 1 } :=
  (hr.happening n).clock (hr.current_lt n)

theorem Run.clock_le (hr : Run cfg allowed s) (hle : m ≤ n) : (s m).clock ≤ (s n).clock := by
  induction n, hle using Nat.le_induction with
  | base => exact Nat.le_refl _
  | succ n _ ih =>
    rcases hr.clock_succ n with heq | heq
    · rwa [heq]
    · rw [heq]
      exact Nat.le_succ_of_le ih

/-- The clock moves only when every task has to wait. -/
def Punctual (cfg : Setup M) (s : Nat → Harness M) : Prop :=
  ∀ n, (s (n + 1)).clock ≠ (s n).clock → ∀ t, (s n).step? cfg t = none

theorem Punctual.still (hp : Punctual cfg s) (hs : (s n).step? cfg t = some h') :
    (s (n + 1)).clock = (s n).clock := by
  by_contra hne
  rw [hp n hne t] at hs
  cases hs

theorem mem_spawned (hs : h.step? cfg t = some h') : t ∈ (initial cfg).spawned h := by
  have hrange : ∀ {α : Type} {xs : List α} {k : Nat} {a : α}, xs[k]? = some a →
      k ∈ List.range' 0 (xs.length - 0) := fun hk =>
    List.mem_range'_1.2 ⟨Nat.zero_le _, (List.getElem?_eq_some_iff.1 hk).1.trans_eq (by omega)⟩
  rw [spawned, List.mem_append, List.mem_append]
  cases t with
  | wait i =>
    obtain ⟨w, hw, _⟩ := Option.bind_eq_some_iff.1 (show (h.waits[i]?).bind _ = _ from hs)
    exact .inl (.inl (List.mem_map_of_mem (hrange hw)))
  | generation g =>
    obtain ⟨x, hx, _⟩ := Option.bind_eq_some_iff.1 (show (h.generations[g]?).bind _ = _ from hs)
    exact .inl (.inr (List.mem_map_of_mem (hrange hx)))
  | claim c =>
    obtain ⟨x, hx, _⟩ := Option.bind_eq_some_iff.1 (show (h.claims[c]?).bind _ = _ from hs)
    exact .inr (List.mem_flatMap.2 ⟨c, hrange hx, List.mem_cons_self ..⟩)
  | callback c =>
    obtain ⟨x, hx, _⟩ := Option.bind_eq_some_iff.1 (show (h.claims[c]?).bind _ = _ from hs)
    exact .inr (List.mem_flatMap.2 ⟨c, hrange hx, List.mem_cons_of_mem _ (List.mem_cons_self ..)⟩)

/-- To see that every task has to wait, one looks at those that there are. -/
theorem idle_of_spawned (hidle : (!((initial cfg).spawned h).any (h.isReady cfg)) = true) (t : Task) :
    h.step? cfg t = none := by
  by_contra hsome
  obtain ⟨h', hs⟩ := Option.ne_none_iff_exists'.1 hsome
  have hready : h.isReady cfg t = true := by rw [isReady, hs]; rfl
  have hany : ((initial cfg).spawned h).any (h.isReady cfg) = true :=
    List.any_eq_true.2 ⟨t, mem_spawned hs, hready⟩
  rw [hany] at hidle
  cases hidle

/-- Whether the clock moves in a schedule only when every task has to wait. -/
def keepsTime (cfg : Setup M) : Harness M → List (Move M) → Bool
  | _, [] => true
  | h, mv :: rest =>
    ((h.move cfg mv).clock == h.clock || !((initial cfg).spawned h).any (h.isReady cfg)) &&
      keepsTime cfg (h.move cfg mv) rest

theorem punctual_after {moves : List (Move M)} (hk : keepsTime cfg h moves = true) :
    Punctual cfg (after cfg h moves) := by
  intro n
  induction moves generalizing h n with
  | nil =>
    intro hne
    cases n <;> exact (hne rfl).elim
  | cons mv rest ih =>
    rw [keepsTime, Bool.and_eq_true, Bool.or_eq_true] at hk
    cases n with
    | succ n => exact ih hk.2 n
    | zero =>
      intro hne t
      have hone : after cfg h (mv :: rest) 1 = h.move cfg mv := by
        rw [after]
        cases rest <;> rfl
      rw [hone] at hne
      exact idle_of_spawned (hk.1.resolve_left fun heq => hne (eq_of_beq heq)) t

/-! A caller goes on. -/

/-- The stages that a wait can come to when its caller goes on. -/
inductive Advances (cfg : Setup M) (h : Harness M) (i : Nat) (w : Wait M) : WaitStage M → Prop
  | refused (e : HarnessError) : w.stage = .calling ∧ h.failure = some e ∨
    (∃ g, w.stage = .starting g ∧ (h.life g).started = .resolved (.error e)) →
    Advances cfg h i w (.refused e)
  | dropped : Advances cfg h i w .dropped
  /-- It has its outcome, or the deadline passes. -/
  | ended (o : Outcome M) :
    w.outcome = .resolved o ∨ (∃ e, o = .error e ∧ e.reason? = some .afterAwait) →
    w.stage.isAwaiting = true → Advances cfg h i w (.ended o)
  | starting (g : Nat) : w.stage = .calling → Advances cfg h i w (.starting g)
  | registered (g : Nat) : w.stage = .starting g → (h.life g).started = .resolved (.ok ()) →
    Advances cfg h i w .registered
  | awaited : w.stage = .registered → Advances cfg h i w .awaited
  | awaiting : w.stage = .awaited → Advances cfg h i w (.awaiting (h.clock + cfg.timeout))
  /-- A deadline passes after the waiter left the list. -/
  | overdue (deadline : Nat) : w.stage = .awaiting deadline → deadline ≤ h.clock →
    w.outcome = .pending → i ∉ h.roll → Advances cfg h i w .overdue

theorem stage_enterWait {stage : WaitStage M} (hw : h.waits[i]? = some w)
    (hw₁ : (h.enterWait i stage).waits[i]? = some w₁) : w₁.stage = stage := by
  rw [waits_enterWait_self hw] at hw₁
  cases hw₁
  rfl

theorem reason_expiry {v : Waiter M} : (h.expiry cfg v).reason? = some .afterAwait := by
  rw [expiry, HarnessError.reason?, Waiter.timeoutError_report?]
  rfl

theorem Visit.advances (hv : h.Visit cfg i w h₁) (hw : h.waits[i]? = some w)
    (hw₁ : h₁.waits[i]? = some w₁) : h.Advances cfg i w w₁.stage := by
  have hleft : (h.deregister i).waits[i]? = some w := by rw [waits_deregister, hw]
  cases hv with
  | turnedAway e hs hf =>
    rw [stage_enterWait hw hw₁]
    exact .refused e (.inl ⟨hs, hf⟩)
  | joined g hs _ _ =>
    rw [stage_enterWait (h := { h with waiters := _ }) hw hw₁]
    exact .starting g hs
  | created hs _ _ =>
    rw [stage_enterWait
      (h := { h with waiters := _, generations := _, current := some h.generations.length }) hw hw₁]
    exact .starting _ hs
  | accepted g hs ho =>
    rw [stage_enterWait hw hw₁]
    exact .registered g hs ho
  | refused g e hs he =>
    rw [stage_enterWait hleft hw₁]
    exact .refused e (.inr ⟨g, hs, he⟩)
  | awaited hs =>
    rw [stage_enterWait hw hw₁]
    exact .awaited hs
  | armed hs =>
    rw [stage_enterWait hw hw₁]
    exact .awaiting hs
  | finished outcome hs ho =>
    rw [stage_enterWait hw hw₁]
    refine .ended outcome (.inl ho) ?_
    rcases hs with ⟨_, hs⟩ | hs <;> rw [hs] <;> rfl
  | expired deadline hs hp hdue =>
    by_cases hlisted : h.waitersOf i = []
    · have hfind : h.waiters.find? (·.id == i) = none := by
        rw [← List.head?_filter]
        exact congrArg List.head? hlisted
      rw [expire, hfind] at hw₁
      rw [stage_enterWait hw hw₁]
      exact .overdue deadline hs hdue hp fun hi => mem_roll.1 hi hlisted
    · obtain ⟨v, hended⟩ := (waiters_expire cfg hw).2 hlisted
      rw [hended] at hw₁
      cases hw₁
      exact .ended _ (.inr ⟨_, rfl, reason_expiry⟩) (by rw [hs]; rfl)
  | left _ =>
    rw [stage_enterWait hleft hw₁]
    exact .dropped

/-- In one move a wait stays at its stage, or its caller goes on, which takes no time. -/
theorem Run.advances (hr : Run cfg allowed s) (hw : (s n).waits[i]? = some w)
    (hw' : (s (n + 1)).waits[i]? = some w') : w'.stage = w.stage ∨
      (s n).Advances cfg i w w'.stage ∧ (s (n + 1)).clock = (s n).clock := by
  obtain ⟨u, hu, hc⟩ := hr.course n hw
  obtain rfl := Option.some.inj (hw'.symm.trans hu)
  refine hc.stage.imp_right fun ⟨h₁, hv, hend, w₁, hw₁, hstage⟩ => ?_
  refine ⟨hstage ▸ hv.advances hw hw₁, ?_⟩
  rcases hend with heq | heq
  · rw [heq, hv.visited.clock]
  · rw [heq, clock_dispose, hv.visited.clock]

/-- A wait ended with its outcome, or because its deadline passed. -/
theorem Run.ended (hr : Run cfg allowed s) {o : Outcome M} (hw : (s n).waits[i]? = some w)
    (hs : w.stage = .ended o) :
    w.outcome = .resolved o ∨ ∃ e, o = .error e ∧ e.reason? = some .afterAwait := by
  refine hr.wait_induction (i := i) (P := fun _ w => w.stage = .ended o →
      w.outcome = .resolved o ∨ ∃ e, o = .error e ∧ e.reason? = some .afterAwait)
    (fun n w hcalling _ hs => ?_) (fun n u w hu hw hcourse ih hs => ?_) hw hs
  · rw [hcalling] at hs
    cases hs
  · have hkeeps := hcourse.abides.outcome o
    rcases hr.advances hu hw with hsame | ⟨hadvances, _⟩
    · exact (ih (hsame.symm.trans hs)).imp_left hkeeps
    · rw [hs] at hadvances
      cases hadvances with
      | ended _ ho _ => exact ho.imp_left hkeeps

end Intercept.Harness
