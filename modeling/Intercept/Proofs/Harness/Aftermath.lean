import Intercept.Proofs.Harness.Registrations

/-! What everybody is told who was waiting as the harness came to its end, or who comes after that. -/
namespace Intercept

/-- A setup in which the broker refuses the second subscription. -/
def Setup.shunned : Setup Unit :=
  { Setup.bare with
    connection.start := fun n => if n = 0 then .prompt else .refused (.connection "refused") }

namespace Harness
variable {M : Type} {cfg : Setup M} {allowed : Act M → Prop} {h h' h₁ : Harness M}
  {s : Nat → Harness M} {e : HarnessError} {g i k m n : Nat} {w w' : Wait M} {o : Outcome M}

/-- After the end nobody is listed, no generation is created, and the log grows only by confirmations
of earlier cancels. Whoever has no outcome has yet to register, or has claimed a delivery. -/
structure Closed (h h' : Harness M) : Prop where
  failure : h'.failure = h.failure ∨ h'.failure = some .disposed
  waiters : h'.waiters = []
  waits : ∀ (i : Nat) (w : Wait M), h'.waits[i]? = some w → w.outcome = .pending →
    w.stage = .calling ∨ w.stage.isOver = true ∨ ∃ x ∈ h'.claims, x.wait = i
  count : h'.generations.length = h.generations.length
  operations : ∃ tail, h'.broker.operations = h.broker.operations ++ tail ∧
    ∀ op ∈ tail, op.isConfirmation = true

theorem Run.closed (hr : Run cfg allowed s) (hf : (s m).failure ≠ none) (hle : m ≤ n) :
    (s m).Closed (s n) where
  failure := by
    obtain ⟨e, he⟩ := Option.ne_none_iff_exists'.1 hf
    rw [he]
    exact hr.failure_of_le hle he
  waiters := ((hr.paired n).nobody_of_failure (hr.failed_of_le hle hf)).2
  waits := fun i w hw hpending => by
    rcases hr.whereabouts hw with hcalling | hover | hi | hx | ho
    · exact .inl hcalling
    · exact .inr (.inl hover)
    · rw [roll, ((hr.paired n).nobody_of_failure (hr.failed_of_le hle hf)).2] at hi
      cases hi
    · exact .inr (.inr hx)
    · exact (ho hpending).elim
  count := by
    induction n, hle using Nat.le_induction with
    | base => rfl
    | succ n hle ih =>
      exact ((hr.happening n).count (hr.paired n) (hr.failed_of_le hle hf)).trans ih
  operations := ((hr.onward_of_le hle).released (hr.released hf)).2

/-! Whoever is about to register is turned away. -/

/-- A registration is turned away as soon as its caller goes on, unless the caller has given up. -/
inductive Rejected (cfg : Setup M) (h : Harness M) (i : Nat) (e : HarnessError) : Prop
  | due (h' : Harness M) : h.step? cfg (.wait i) = some h' → h.TurnsAway i e h' →
    Rejected cfg h i e
  | refused (w : Wait M) : h.waits[i]? = some w → w.stage = .refused e →
    h.told i = [.result (.error e)] → Rejected cfg h i e
  | dropped (w : Wait M) : h.waits[i]? = some w → w.stage = .dropped → Rejected cfg h i e

theorem Run.turnsAway_calling (hr : Run cfg allowed s) (hw : (s n).waits[i]? = some w)
    (hs : w.stage = .calling) (hf : (s n).failure = some e) :
    ∃ h', (s n).step? cfg (.wait i) = some h' ∧ (s n).TurnsAway i e h' := by
  have hne : (s n).failure ≠ none := by simp [hf]
  refine ⟨(s n).refuse i e, ?_, concludes_after_end hw ((hr.paired n).nobody_of_failure hne).2
    (hr.released hne)⟩
  rw [step?, stepWait?, hw, Option.bind_eq_bind, Option.bind_some, hs]
  exact congrArg some (register_of_failure hf)

theorem Run.turnsAway_starting (hr : Run cfg allowed s) (hw : (s n).waits[i]? = some w)
    (hs : w.stage = .starting g) (he : ((s n).life g).started = .resolved (.error e))
    (hf : (s n).failure ≠ none) :
    ∃ h', (s n).step? cfg (.wait i) = some h' ∧ (s n).TurnsAway i e h' := by
  obtain ⟨_, hnobody⟩ := (hr.paired n).nobody_of_failure hf
  refine ⟨(s n).refuse i e, ?_, concludes_after_end hw hnobody (hr.released hf)⟩
  have hnil : (s n).waitersOf i = [] := by rw [waitersOf, hnobody, List.filter_nil]
  rw [step?, stepWait?, hw, Option.bind_eq_bind, Option.bind_some, hs]
  simp only [he, OneShot.get?_resolved, Option.bind_eq_bind, Option.bind_some,
    deregister_of_nil hnil]

/-- Whoever waits for a consumer that was answered for has its answer next, or gives up. -/
theorem Advances.of_answered {stage : WaitStage M} {r : Except HarnessError Unit}
    (ha : h.Advances cfg i w stage) (hs : w.stage = .starting g)
    (hr : (h.life g).started = .resolved r) :
    r = .ok () ∧ stage = .registered ∨ (∃ e, r = .error e ∧ stage = .refused e) ∨
      stage = .dropped := by
  cases ha with
  | registered k hk hok =>
    rw [hs] at hk
    cases hk
    rw [hr] at hok
    exact .inl ⟨OneShot.resolved.inj hok, rfl⟩
  | refused e hwhy =>
    rcases hwhy with ⟨hcalling, _⟩ | ⟨k, hk, he⟩
    · rw [hs] at hcalling
      cases hcalling
    · rw [hs] at hk
      cases hk
      rw [hr] at he
      exact .inr (.inl ⟨e, OneShot.resolved.inj he, rfl⟩)
  | dropped => exact .inr (.inr rfl)
  | ended _ _ hawaiting =>
    rw [hs] at hawaiting
    cases hawaiting
  | starting _ hs' | awaited hs' | awaiting hs' | overdue _ hs' _ _ _ =>
    rw [hs] at hs'
    cases hs'

theorem Run.refused_of_le (hr : Run cfg allowed s) (hle : m ≤ n) (hw : (s m).waits[i]? = some w)
    (hs : w.stage = .starting g) (he : ((s m).life g).started = .resolved (.error e)) :
    ∃ w', (s n).waits[i]? = some w' ∧
      (w'.stage = .starting g ∨ w'.stage = .refused e ∨ w'.stage = .dropped) := by
  induction n, hle using Nat.le_induction with
  | base => exact ⟨w, hw, .inl hs⟩
  | succ n hle ih =>
    obtain ⟨u, hu, hstage⟩ := ih
    obtain ⟨w', hw', hcourse⟩ := hr.course n hu
    refine ⟨w', hw', ?_⟩
    rcases hstage with hst | hover
    · rcases hr.advances hu hw' with hsame | ⟨hadvances, _⟩
      · exact .inl (hsame.trans hst)
      · rcases hadvances.of_answered hst (hr.started_of_le hle he) with
          ⟨hok, _⟩ | ⟨_, he', hst'⟩ | hst'
        · cases hok
        · cases he'
          exact .inr (.inl hst')
        · exact .inr (.inr hst')
    · rw [hcourse.abides.stage (by rcases hover with ho | ho <;> rw [ho] <;> rfl)]
      exact .inr hover

theorem Run.rejected (hr : Run cfg allowed s) (hf : (s m).failure ≠ none) (hle : m ≤ n)
    (hw : (s m).waits[i]? = some w) (hs : w.stage = .starting g)
    (he : ((s m).life g).started = .resolved (.error e)) : (s n).Rejected cfg i e := by
  obtain ⟨w', hw', hst | hst | hst⟩ := hr.refused_of_le hle hw hs he
  · obtain ⟨h', hstep, haway⟩ :=
      hr.turnsAway_starting hw' hst (hr.started_of_le hle he) (hr.failed_of_le hle hf)
    exact .due h' hstep haway
  · have htells := (hr.attended n).tells i w' hw'
    rw [hst] at htells
    exact .refused w' hw' hst htells
  · exact .dropped w' hw' hst

/-! Whoever waited for a consumer that had started has its wait. -/

/-- A registration succeeds as soon as its caller goes on, unless the caller has given up. -/
inductive Welcomed (cfg : Setup M) (h : Harness M) (i : Nat) : Prop
  | due (h' : Harness M) : h.step? cfg (.wait i) = some h' → h.LetsIn i h' → Welcomed cfg h i
  | told : .registered ∈ h.told i → Welcomed cfg h i
  | dropped (w : Wait M) : h.waits[i]? = some w → w.stage = .dropped → Welcomed cfg h i

/-- A wait has an outcome. Its caller is told no other, and this one as soon as it has to wait for
one. -/
structure Owes (cfg : Setup M) (h : Harness M) (i : Nat) (o : Outcome M) : Prop where
  wait : ∃ w, h.waits[i]? = some w ∧ w.outcome = .resolved o
  only : ∀ o', .result o' ∈ h.told i → o' = o
  due : ∀ w : Wait M, h.waits[i]? = some w → w.stage.isAwaiting = true → w.stage ≠ .awaited →
    h.step? cfg (.wait i) = some (h.finish i o)

theorem Run.letsIn_starting (hr : Run cfg allowed s) (hw : (s n).waits[i]? = some w)
    (hs : w.stage = .starting g) (hok : ((s n).life g).started = .resolved (.ok ()))
    (hf : (s n).failure ≠ none) :
    ∃ h', (s n).step? cfg (.wait i) = some h' ∧ (s n).LetsIn i h' := by
  obtain ⟨_, hnobody⟩ := (hr.paired n).nobody_of_failure hf
  refine ⟨(s n).accept i, ?_, concludes_after_end hw hnobody (hr.released hf)⟩
  rw [step?, stepWait?, hw, Option.bind_eq_bind, Option.bind_some, hs]
  simp only [hok, OneShot.get?_resolved, Option.bind_eq_bind, Option.bind_some]

theorem Run.started_or_told (hr : Run cfg allowed s) (hle : m ≤ n)
    (hw : (s m).waits[i]? = some w) (hs : w.stage = .starting g)
    (hok : ((s m).life g).started = .resolved (.ok ())) : ∃ w', (s n).waits[i]? = some w' ∧
      (w'.stage = .starting g ∨ w'.stage = .dropped ∨ .registered ∈ (s n).told i) := by
  induction n, hle using Nat.le_induction with
  | base => exact ⟨w, hw, .inl hs⟩
  | succ n hle ih =>
    obtain ⟨u, hu, hstage⟩ := ih
    obtain ⟨w', hw', hcourse⟩ := hr.course n hu
    refine ⟨w', hw', ?_⟩
    rcases hstage with hst | hst | ht
    · rcases hr.advances hu hw' with hsame | ⟨hadvances, _⟩
      · exact .inl (hsame.trans hst)
      · rcases hadvances.of_answered hst (hr.started_of_le hle hok) with
          ⟨_, hst'⟩ | ⟨_, he, _⟩ | hst'
        · have htells := (hr.attended (n + 1)).tells i w' hw'
          rw [hst'] at htells
          exact .inr (.inr (by rw [show (s (n + 1)).told i = _ from htells]; simp))
        · cases he
        · exact .inr (.inl hst')
    · exact .inr (.inl (hcourse.abides.dropped hst))
    · exact .inr (.inr (hr.told_of_le (Nat.le_succ n) ht))

theorem Run.welcomed (hr : Run cfg allowed s) (hf : (s m).failure ≠ none) (hle : m ≤ n)
    (hw : (s m).waits[i]? = some w) (hs : w.stage = .starting g)
    (hok : ((s m).life g).started = .resolved (.ok ())) : (s n).Welcomed cfg i := by
  obtain ⟨w', hw', hst | hst | ht⟩ := hr.started_or_told hle hw hs hok
  · obtain ⟨h', hstep, hin⟩ :=
      hr.letsIn_starting hw' hst (hr.started_of_le hle hok) (hr.failed_of_le hle hf)
    exact .due h' hstep hin
  · exact .dropped w' hw' hst
  · exact .told ht

/-- A caller whose wait has an outcome is told this one. -/
theorem Visit.ended_with (hv : h.Visit cfg i w h₁) (hw : h.waits[i]? = some w)
    (ho : w.outcome = .resolved o) (hw₁ : h₁.waits[i]? = some w') {o' : Outcome M}
    (hs : w'.stage = .ended o') : o' = o := by
  have hleft : (h.deregister i).waits[i]? = some w := by rw [waits_deregister, hw]
  cases hv with
  | finished outcome _ hout =>
    rw [ho] at hout
    cases hout
    have hstage : w'.stage = .ended o := stage_enterWait hw hw₁
    rw [hstage] at hs
    cases hs
    rfl
  | expired _ _ hpending _ =>
    rw [ho] at hpending
    cases hpending
  | turnedAway _ _ _ | accepted _ _ _ | awaited _ | armed _ =>
    rw [stage_enterWait hw hw₁] at hs
    cases hs
  | joined _ _ _ _ =>
    rw [stage_enterWait (h := { h with waiters := _ }) hw hw₁] at hs
    cases hs
  | created _ _ _ =>
    rw [stage_enterWait
      (h := { h with waiters := _, generations := _, current := some h.generations.length }) hw hw₁]
      at hs
    cases hs
  | refused _ _ _ _ | left _ =>
    rw [stage_enterWait hleft hw₁] at hs
    cases hs

theorem Run.ended_of_resolved (hr : Run cfg allowed s) (hle : m ≤ n)
    (hw : (s m).waits[i]? = some w) (ho : w.outcome = .resolved o)
    (hover : w.stage.isOver = false) {o' : Outcome M} (hw' : (s n).waits[i]? = some w')
    (hs : w'.stage = .ended o') : o' = o := by
  induction n, hle using Nat.le_induction generalizing w' with
  | base =>
    obtain rfl := Option.some.inj (hw.symm.trans hw')
    rw [hs] at hover
    cases hover
  | succ n hle ih =>
    obtain ⟨u, hu, habides⟩ := hr.wait_of_le hle hw
    obtain ⟨w₂, hw₂, hcourse⟩ := hr.course n hu
    obtain rfl := Option.some.inj (hw'.symm.trans hw₂)
    rcases hcourse.stage with hsame | ⟨h₁, hv, _, w₁, hw₁, hstage⟩
    · exact ih hu (hsame.symm.trans hs)
    · exact hv.ended_with hu (habides.outcome o ho) hw₁ (hstage.symm.trans hs)

theorem Run.owes (hr : Run cfg allowed s) (hle : m ≤ n) (hw : (s m).waits[i]? = some w)
    (hs : w.stage = .starting g) (hok : ((s m).life g).started = .resolved (.ok ()))
    (ho : w.outcome = .resolved o) : (s n).Owes cfg i o := by
  obtain ⟨w', hw', hstage⟩ := hr.started_or_told hle hw hs hok
  obtain ⟨u, hu, habides⟩ := hr.wait_of_le hle hw
  obtain rfl := Option.some.inj (hw'.symm.trans hu)
  have hout := habides.outcome o ho
  have htells := (hr.attended n).tells i w' hw'
  refine ⟨⟨w', hw', hout⟩, fun o' ho' => ?_, fun u hu hawaiting hne => ?_⟩
  · rcases htells.of_result ho' with ⟨e, hrefused, _⟩ | hended
    · -- It was not refused, as its consumer has started.
      rcases hstage with hst | hst | ht
      · rw [hst] at hrefused
        cases hrefused
      · rw [hst] at hrefused
        cases hrefused
      · rw [hrefused] at htells
        rw [show (s n).told i = _ from htells] at ht
        simp at ht
    · exact hr.ended_of_resolved hle hw ho (by rw [hs]; rfl) hw' hended
  · obtain rfl := Option.some.inj (hw'.symm.trans hu)
    exact ready_of_resolved cfg hw' hawaiting hne hout

/-- Until the end, whoever waits for a consumer may wait on, or has its wait next. -/
theorem Run.unrefused (hr : Run cfg allowed s) (hf : (s n).failure = none)
    (hw : (s n).waits[i]? = some w) (hs : w.stage = .starting g) :
    ((s n).life g).started = .pending ∨ ((s n).life g).started = .resolved (.ok ()) := by
  cases hstarted : ((s n).life g).started with
  | pending => exact .inl rfl
  | resolved r =>
    cases r with
    | ok => exact .inr rfl
    | error e =>
      cases hr.refuses_starting hw hs hstarted with
      | cancelled hdisposed =>
        rw [hf] at hdisposed
        cases hdisposed
      | ended _ m hm hends =>
        exact (hr.failed_of_le hm (by rw [hends.1]; nofun) hf).elim

/-- After the end nobody waits for a consumer any more without an answer. -/
theorem Run.answered_after_end (hr : Run cfg allowed s) (hf : (s n).failure ≠ none)
    (hw : (s n).waits[i]? = some w) (hs : w.stage = .starting g) :
    ∃ r, ((s n).life g).started = .resolved r := by
  cases hstarted : ((s n).life g).started with
  | resolved r => exact ⟨r, rfl⟩
  | pending => exact (hf (hr.poised ((hr.founded n).2 i w g hw hs) hstarted).failure).elim

/-! A terminal error is told only after the end. -/

/-- Whoever waits for a generation that has failed belongs to a harness that has come to its end. -/
theorem Run.ended_of_refused (hr : Run cfg allowed s) (hw : (s n).waits[i]? = some w)
    (hs : w.stage = .starting g) (he : ((s n).life g).started = .resolved (.error e))
    (hterminal : e.isTerminal = true) : (s n).failure ≠ none := by
  intro hnone
  have hlt := (hr.founded n).2 i w g hw hs
  rcases ((hr.founded n).1 g).blamed e he with rfl | herrored
  · cases hterminal
  · have hlife := lives_of_lt (h := s n) (g := g) (by rwa [lives, List.length_map])
    exact (hr.paired n).unfailed hnone _ (List.mem_of_getElem? hlife) herrored

theorem Completion.ended (hc : h.Completion cfg h' i (.error e)) (hterminal : e.isTerminal = true) :
    h'.failure ≠ none := by
  cases hc with
  | answered x _ _ _ _ hends => exact hends e rfl hterminal
  | failed _ _ hf _ _ | disposed _ hf => simp [hf]
  | expired k deadline v _ _ _ _ =>
    have hreason := reason_of_terminal hterminal
    rw [Setup.unacked, HarnessError.reason?, Waiter.timeoutError_report?] at hreason
    cases hreason

theorem Run.ended_of_terminal (hr : Run cfg allowed s) (hw : (s n).waits[i]? = some w)
    (hterminal : e.isTerminal = true)
    (he : w.outcome = .resolved (.error e) ∨ w.stage = .refused e) : (s n).failure ≠ none := by
  refine hr.wait_induction (i := i) (P := fun n w =>
      w.outcome = .resolved (.error e) ∨ w.stage = .refused e → (s n).failure ≠ none)
    (fun n w hcalling hpending he => ?_) (fun n u w hu hw hcourse ih he => ?_) hw he
  · rw [hcalling, hpending] at he
    rcases he with he | he <;> cases he
  · have hlater : (s n).failure ≠ none → (s (n + 1)).failure ≠ none :=
      hr.failed_of_le (Nat.le_succ n)
    rcases he with ho | hs
    · rcases hcourse.outcome with hsame | ⟨_, o, ho', hcompletion⟩
      · exact hlater (ih (.inl (hsame.symm.trans ho)))
      · rw [ho] at ho'
        obtain rfl := OneShot.resolved.inj ho'
        exact hcompletion.ended hterminal
    · rcases hr.advances hu hw with hsame | ⟨hadvances, _⟩
      · exact hlater (ih (.inr (hsame.symm.trans hs)))
      · rw [hs] at hadvances
        cases hadvances with
        | refused _ hwhy =>
          refine hlater ?_
          rcases hwhy with ⟨_, hf⟩ | ⟨k, hk, hanswer⟩
          · simp [hf]
          · exact hr.ended_of_refused hu hk hanswer hterminal

theorem Run.ended_of_told (hr : Run cfg allowed s) (hterminal : e.isTerminal = true)
    (ho : .result (.error e) ∈ (s n).told i) : (s n).failure ≠ none := by
  cases hw : (s n).waits[i]? with
  | none =>
    rw [((hr.attended n).nobody i hw).2.2] at ho
    cases ho
  | some w =>
    rcases ((hr.attended n).tells i w hw).of_result ho with ⟨e', hs, heq⟩ | hs
    · cases heq
      exact hr.ended_of_terminal hw hterminal (.inr hs)
    · rcases hr.ended hw hs with houtcome | ⟨e', heq, hreason⟩
      · exact hr.ended_of_terminal hw hterminal (.inl houtcome)
      · cases heq
        rw [reason_of_terminal hterminal] at hreason
        cases hreason

/-- A fault makes the harness fail with its error, in the very move. However it fails, all listed
waiters fail at once, the generation with them, and the channel is released. Disposing of it stops
the generation and cancels whoever is listed. A registration that is still waiting for its generation
to start learns of either. One whose generation has started succeeds, and if its waiter was listed its
outcome is the error. One that comes later learns how the harness has ended. From then on nobody is
listed, and whoever has no outcome has yet to register or has claimed a delivery; no generation is
created and only confirmations are logged. Another failure changes nothing, and the harness is only
disposed of as its owner asks or lets go. The release is logged at most once, and only confirmations
after it. Nobody is told a terminal error before the end. -/
theorem endings_leave_nobody_waiting (hr : Run cfg (fun _ => True) s) :
    (∀ n e, (s n).failure = none → (s n).Fault cfg e (s (n + 1)) →
      (s (n + 1)).failure = some e ∧ (s n).Breaks cfg e (s (n + 1))) ∧
    (∀ n e, (s n).failure = none → (s (n + 1)).failure = some e → e ≠ .disposed →
      (s n).Breaks cfg e (s (n + 1))) ∧
    (∀ n, (s n).failure ≠ some .disposed → s (n + 1) = (s n).dispose →
      (s n).Disposes (s (n + 1))) ∧
    (∀ (n i : Nat) (w : Wait M) (g : Nat), (s n).failure = none → (s n).waits[i]? = some w →
      w.stage = .starting g →
      ((s n).life g).started = .pending ∨ ((s n).life g).started = .resolved (.ok ())) ∧
    (∀ m n, (s m).failure ≠ none → m ≤ n → (s m).Closed (s n) ∧
      (∀ (i : Nat) (w : Wait M) (g : Nat), (s m).waits[i]? = some w → w.stage = .starting g →
        (∃ e, ((s m).life g).started = .resolved (.error e) ∧ (s n).Rejected cfg i e) ∨
        ((s m).life g).started = .resolved (.ok ()) ∧ (s n).Welcomed cfg i ∧
          ∀ o, w.outcome = .resolved o → (s n).Owes cfg i o) ∧
      ∀ (i : Nat) (w : Wait M) (e : HarnessError), (s n).waits[i]? = some w → w.stage = .calling →
        (s n).failure = some e →
        ∃ h', (s n).step? cfg (.wait i) = some h' ∧ (s n).TurnsAway i e h') ∧
    (∀ n, (s n).failure ≠ some .disposed → (s (n + 1)).failure = some .disposed →
      s (n + 1) = (s n).dispose ∨ (s (n + 1)).dropped = true) ∧
    (∀ n, (s n).broker.operations.count .dispose ≤ 1 ∧
      ∀ early late, (s n).broker.operations = early ++ .dispose :: late →
        ∀ op ∈ late, op.isConfirmation = true) ∧
    ∀ (n i : Nat) (e : HarnessError), e.isTerminal = true → .result (.error e) ∈ (s n).told i →
      (s n).failure ≠ none := by
  have hbreaks : ∀ n e, (s n).failure = none → (s (n + 1)).failure = some e → e ≠ .disposed →
      (s n).Breaks cfg e (s (n + 1)) := by
    intro n e hf he hne
    rcases hr.ending n with hsame | hend
    · rw [he, hf] at hsame
      cases hsame
    · exact hend.breaks (hr.attended n) (hr.paired n) (hr.founded n) he hne
  refine ⟨fun n e hf hfault => ?_, hbreaks, fun n hf heq => ?_,
    fun n i w g hf hw hs => hr.unrefused hf hw hs, fun m n hf hle =>
    ⟨hr.closed hf hle, fun i w g hw hs => ?_,
      fun i w e hw hs he => hr.turnsAway_calling hw hs he⟩, fun n hf hd => ?_, fun n => ?_,
    fun n i e he ho => hr.ended_of_told he ho⟩
  · have he := hfault.failure hf
    exact ⟨he, hbreaks n e hf he hfault.ne_disposed⟩
  · have hp := hr.paired (n + 1)
    rw [heq] at hp ⊢
    exact disposes_dispose (hr.attended n) (hr.paired n) hp (hr.founded n) hf
  · obtain ⟨r, hanswer⟩ := hr.answered_after_end hf hw hs
    cases r with
    | error e => exact .inl ⟨e, hanswer, hr.rejected hf hle hw hs hanswer⟩
    | ok =>
      exact .inr ⟨hanswer, hr.welcomed hf hle hw hs hanswer, fun o ho =>
        hr.owes hle hw hs hanswer ho⟩
  · rcases hr.ending n with hsame | hend
    · exact (hf (hsame.symm.trans hd)).elim
    · exact hend.disposal hd
  · obtain ⟨log, hlog, honward⟩ := hr.onward_of_le (Nat.zero_le n)
    have hnothing : (s 0).broker.operations = [] := by
      rw [hr.start]
      rfl
    rw [hlog, hnothing, List.nil_append]
    refine ⟨count_dispose_le_one honward, fun early late hsplit => ?_⟩
    rw [hsplit] at honward
    exact confirmations_after_dispose honward

/-- The first caller is slow to go on, and the second subscription is refused. A third caller comes
after that, and a fourth after the harness was disposed of. -/
def shunning : List (Move Unit) :=
  [.act (.call "a message" fun _ => .holds true), .step (.wait 0), .step (.generation 0),
    .act (.publish []), .step (.generation 0), .step (.generation 0),
    .act (.call "another" fun _ => .holds true), .step (.wait 1), .step (.generation 1),
    .step (.generation 1), .step (.wait 1), .act (.call "a third" fun _ => .holds true),
    .step (.wait 2), .act .dispose, .act (.call "a fourth" fun _ => .holds true)]

/-- The connection fails before the caller goes on. -/
def disconnection : List (Move Unit) :=
  [.act (.call "a message" fun _ => .holds true), .step (.wait 0), .step (.generation 0),
    .act (.failConnection "lost"), .step (.wait 0), .act (.await 0), .step (.wait 0)]

/-- The second caller learns of the refusal, and so does the third, but the first has its wait. The
fourth learns that the harness was disposed of. If the connection fails instead, the first caller has
its wait too, and then that error. -/
theorem refused_subscription_ends_all : (∃ s : Nat → Harness Unit,
    Run .shunned (fun a => a.isForeign = false) s ∧
    (s 9).Breaks .shunned (.transport (.connection "refused")) (s 10) ∧
    (s 10).Rejected .shunned 1 (.transport (.connection "refused")) ∧ (s 15).Welcomed .shunned 0 ∧
    (∃ h', (s 12).step? .shunned (.wait 2) = some h' ∧
      (s 12).TurnsAway 2 (.transport (.connection "refused")) h') ∧
    ∃ h', (s 15).step? .shunned (.wait 3) = some h' ∧ (s 15).TurnsAway 3 .disposed h') ∧
    ∃ s : Nat → Harness Unit, Run .bare (fun a => a.isForeign = false) s ∧
      (s 3).Breaks .bare (.transport (.connection "lost")) (s 4) ∧ (s 4).Welcomed .bare 0 ∧
      (s 7).Owes .bare 0 (.error (.transport (.connection "lost"))) := by
  constructor
  · have hr : Run .shunned _ (after .shunned (initial .shunned) shunning) := run_after rfl
    obtain ⟨hfault, _, _, _, hclosed, _⟩ := endings_leave_nobody_waiting (hr.mono fun _ _ => trivial)
    obtain ⟨hf, hbreaks⟩ := hfault 9 _ rfl
      (.unattached 1 _ (.refused _ _ rfl (.inr ⟨0, _, rfl, rfl⟩) (by decide) rfl) rfl)
    obtain ⟨_, hpending, _⟩ := hclosed 10 10 (by simp [hf]) (Nat.le_refl 10)
    obtain ⟨_, _, hlater⟩ := hclosed 10 12 (by simp [hf]) (by decide)
    obtain ⟨_, hstarted, hlast⟩ := hclosed 10 15 (by simp [hf]) (by decide)
    refine ⟨_, hr, hbreaks, ?_, ?_, hlater 2 _ _ rfl rfl rfl, hlast 3 _ _ rfl rfl rfl⟩
    · obtain ⟨e, he, hrejected⟩ | ⟨hok, _⟩ := hpending 1 _ 1 rfl rfl
      · cases he
        exact hrejected
      · cases hok
    · obtain ⟨e, he, _⟩ | ⟨_, hwelcomed, _⟩ := hstarted 0 _ 0 rfl rfl
      · cases he
      · exact hwelcomed
  · have hr : Run .bare _ (after .bare (initial .bare) disconnection) := run_after rfl
    obtain ⟨hfault, _, _, _, hclosed, _⟩ := endings_leave_nobody_waiting (hr.mono fun _ _ => trivial)
    obtain ⟨hf, hbreaks⟩ := hfault 3 _ rfl (.disconnected "lost" (by decide) rfl)
    obtain ⟨_, hsoon, _⟩ := hclosed 4 4 (by simp [hf]) (Nat.le_refl 4)
    obtain ⟨_, hlate, _⟩ := hclosed 4 7 (by simp [hf]) (by decide)
    refine ⟨_, hr, hbreaks, ?_, ?_⟩
    · obtain ⟨e, he, _⟩ | ⟨_, hwelcomed, _⟩ := hsoon 0 _ 0 rfl rfl
      · cases he
      · exact hwelcomed
    · obtain ⟨e, he, _⟩ | ⟨_, _, howes⟩ := hlate 0 _ 0 rfl rfl
      · cases he
      · exact howes _ rfl

/-- A registration that is still pending as the harness fails succeeds, if its consumer has started
by then. -/
theorem admitted_despite_failure : ∃ s : Nat → Harness Unit, ∃ e : HarnessError,
    Run .bare (fun a => a.isForeign = false) s ∧ e.isTerminal = true ∧
    (s 3).failure = none ∧ (s 4).failure = some e ∧
    (∃ w, (s 3).waits[0]? = some w ∧ w.stage = .starting 0) ∧ (s 4).told 0 = [] ∧
    (s 5).told 0 = [.registered] :=
  ⟨_, _, (run_after rfl : Run .bare _ (after .bare (initial .bare) disconnection)), rfl, rfl, rfl,
    ⟨_, rfl, rfl⟩, rfl, rfl⟩

end Harness
end Intercept
