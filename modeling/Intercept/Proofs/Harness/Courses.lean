import Intercept.Proofs.Harness.Happenings

/-! The course of a wait: how its caller goes on, how its waiter leaves the list, and how it gets its
outcome. -/
namespace Intercept
variable {M : Type}

/-- The error of a waiter that is listed when an unmatched delivery was not settled in time. -/
def Setup.unacked (cfg : Setup M) (v : Waiter M) : HarnessError :=
  v.timeoutError (v.report .unackedMessage cfg.settings.timeout cfg.context)

theorem OneShot.resolve_cases {α : Type} (s : OneShot α) (a : α) :
    s.resolve a = s ∨ s = .pending ∧ s.resolve a = .resolved a := by
  cases s with
  | pending => exact .inr ⟨rfl, rfl⟩
  | resolved b => exact .inl rfl

theorem Waiter.timeoutError_report? {v : Waiter M} {report : TimeoutReport} :
    (v.timeoutError report).report? = some report := by
  rw [timeoutError]
  split <;> rfl

/-- Whether a caller has its answer, or has given up. -/
def WaitStage.isOver : WaitStage M → Bool
  | refused _ | ended _ | dropped => true
  | _ => false

/-- A deadline has passed for the wait. -/
def Wait.Lapsed (w : Wait M) : Prop :=
  ∃ e : HarnessError, e.report? ≠ none ∧ (w.outcome = .resolved (.error e) ∨ w.stage = .ended (.error e))

/-- Whoever may still await an outcome that is no report of a deadline is in time. -/
theorem Wait.not_lapsed {w : Wait M}
    (ho : ∀ e, w.outcome = .resolved (.error e) → e.report? = none) (hs : w.stage = .registered) :
    ¬ w.Lapsed := by
  rintro ⟨e, he, hout | hended⟩
  · exact he (ho e hout)
  · rw [hs] at hended
    cases hended

namespace Harness
variable {cfg : Setup M} {allowed : Act M → Prop} {h h' h₁ : Harness M} {s : Nat → Harness M}
  {e : HarnessError} {g i j m n : Nat} {w w' : Wait M} {v : Waiter M}

/-! The waiters of a list are completed. -/

theorem resolveAll_wait {waits : List (Wait M)} (waiters : List (Waiter M))
    (error : Waiter M → HarnessError) (hw : waits[i]? = some w) :
    ∃ w', (resolveAll waits waiters error)[i]? = some w' ∧
      ((∀ v ∈ waiters, v.id ≠ i) ∧ w' = w ∨
        ∃ v ∈ waiters, v.id = i ∧ w' = { w with outcome := w.outcome.resolve (.error (error v)) }) := by
  refine ⟨_, resolveAll_eq.trans (congrArg (Option.map _) hw), ?_⟩
  cases hv : waiters.find? (·.id == i) with
  | none =>
    refine .inl ⟨fun v hmem hid => ?_, rfl⟩
    exact List.find?_eq_none.1 hv v hmem (beq_iff_eq.2 hid)
  | some v =>
    have hid := List.find?_some hv
    exact .inr ⟨v, List.mem_of_find?_eq_some hv, eq_of_beq hid, rfl⟩

theorem expireAll_cleared :
    h.expireAll cfg g = (h.cleared cfg.unacked).changeLife g (·.stop) := by
  rw [expireAll]
  simp only [foldl_complete_eq]
  rfl

theorem disposeIfUnowned_cases (h : Harness M) :
    h.disposeIfUnowned = h ∨ h.disposeIfUnowned = h.dispose := by
  rw [disposeIfUnowned]
  split
  · exact .inr rfl
  · exact .inl rfl

/-- The current generation exists. -/
theorem Paired.exists_current (hp : h.Paired) (g : Nat) (hc : h.current = some g) :
    g < h.generations.length :=
  (hp.current_lt g hc).trans_eq (List.length_map _)

theorem failure_expireAll : (h.expireAll cfg g).failure = h.failure := by
  rw [expireAll_cleared]
  rfl

theorem eq_or_dispose (heq : h' = h₁ ∨ h' = h₁.disposeIfUnowned) : h' = h₁ ∨ h' = h₁.dispose := by
  rcases heq with heq | heq
  · exact .inl heq
  · rcases disposeIfUnowned_cases h₁ with hsame | hdisposed
    · exact .inl (heq.trans hsame)
    · exact .inr (heq.trans hdisposed)

/-- The harness is disposed of, unless it was before. -/
theorem dispose_view (hf : h.failure ≠ some .disposed) : h.dispose.view =
    (h.clock, resolveAll h.waits h.waiters fun _ => .cancelled, [], h.current, some .disposed,
      h.dropped) := by
  obtain ⟨generations, heq⟩ := changeCurrent_eq (h := h) (f := (·.stop))
  rw [dispose_eq hf, heq]
  rfl

/-! A wait goes on. -/

/-- Only the stage of its own wait changes in a visit, and nothing fails. -/
structure Visited (h : Harness M) (i : Nat) (h₁ : Harness M) : Prop extends Older h h₁ where
  waits : ∃ stage, h₁.waits = (h.enterWait i stage).waits
  clock : h₁.clock = h.clock
  failure : h₁.failure = h.failure
  claims : h₁.claims = h.claims

theorem visited_of_stopped (stage : WaitStage M) {generations : List Generation}
    (hg : generations = h.generations ∨
      ∃ g, generations = (h.changeLife g (·.stop)).generations)
    (hsame : (h'.generations, h'.broker, h'.waits, h'.clock, h'.failure, h'.claims) =
      (generations, h.broker, (h.enterWait i stage).waits, h.clock, h.failure, h.claims)) :
    h.Visited i h' := by
  simp only [Prod.mk.injEq] at hsame
  obtain ⟨rfl, hbroker, hwaits, hclock, hfailure, hclaims⟩ := hsame
  have honward : h.broker.Onward h'.broker := hbroker ▸ .refl
  refine ⟨?_, ⟨stage, hwaits⟩, hclock, hfailure, hclaims⟩
  rcases hg with hg | ⟨g, hg⟩
  · exact .same hg honward
  · exact (older_changeLife Lifecycle.ages_stop).trans (.same hg honward)

theorem Visit.visited (hv : h.Visit cfg i w h₁) : h.Visited i h₁ := by
  have hleft : ∀ (stage : WaitStage M), h.Visited i ((h.deregister i).enterWait i stage) := by
    intro stage
    rcases deregister_cases h i with hd | ⟨g, hd⟩
    · exact visited_of_stopped stage (.inl rfl) (by rw [hd]; rfl)
    · exact visited_of_stopped stage (.inr ⟨g, rfl⟩) (by rw [hd]; rfl)
  cases hv with
  | turnedAway e _ _ => exact visited_of_stopped (.refused e) (.inl rfl) rfl
  | joined g _ _ _ => exact visited_of_stopped (.starting g) (.inl rfl) rfl
  | created _ _ _ => exact ⟨older_append rfl rfl .refl, ⟨_, rfl⟩, rfl, rfl, rfl⟩
  | accepted g _ _ => exact visited_of_stopped .registered (.inl rfl) rfl
  | refused g e _ _ => exact { hleft (.refused e) with }
  | awaited _ => exact visited_of_stopped .awaited (.inl rfl) rfl
  | armed _ => exact visited_of_stopped (.awaiting _) (.inl rfl) rfl
  | finished outcome _ _ => exact visited_of_stopped (.ended outcome) (.inl rfl) rfl
  | expired deadline _ _ _ =>
    rw [expire]
    split
    · exact visited_of_stopped .overdue (.inl rfl) rfl
    · rcases stopIfIdle_cases (h.unlist i) with hidle | ⟨g, hidle⟩
      · exact visited_of_stopped (.ended _) (.inl rfl)
          (by rw [← unlist, hidle]; rfl)
      · exact visited_of_stopped (.ended _) (.inr ⟨g, rfl⟩)
          (by rw [← unlist, hidle]; rfl)
  | left _ => exact hleft .dropped

/-! Deliveries are handed out by generations that route them, and by nobody else. -/

theorem Business.older (hb : h.Business h') : h.Older h' := by
  cases hb with
  | calm hc => exact hc.toOlder
  | failed h₁ e _ hc _ ht => exact (hc.toOlder.trans older_fail).trans ht.toOlder
  | blamed h₁ g e _ hc _ ht => exact (hc.toOlder.trans older_failGeneration).trans ht.toOlder

theorem Proceeds.older {stage : Stage} (hp : h.Proceeds g stage h') : h.Older h' := by
  cases hp with
  | mk h₁ hc _ hb => exact (hc.toOlder.trans quiet_enter.toOlder).trans hb.older

theorem older_expireAll : h.Older (h.expireAll cfg g) := by
  have hcleared : h.Older (h.cleared cfg.unacked) := .same rfl .refl
  rw [expireAll_cleared]
  exact hcleared.trans (older_changeLife Lifecycle.ages_stop)

theorem older_disposeIfUnowned : h.Older h.disposeIfUnowned := by
  rcases disposeIfUnowned_cases h with heq | heq
  · rw [heq]
    exact .refl
  · rw [heq]
    exact older_dispose

/-- A move takes no delivery away, or it hands one out. -/
theorem Happening.older_or_handed (hh : h.Happening cfg h') :
    h.Older h' ∨ ∃ g d rest x deadline h₁, h.Serves g d rest x ∧ x.stage = .routing deadline ∧
      h.Dispatched cfg g deadline d rest h₁ ∧
      h' = if h₁.waiters.isEmpty then h₁.changeLife g (·.stop) else h₁ := by
  cases hh with
  | ticked => exact .inl (.same rfl .refl)
  | busy hb => exact .inl hb.older
  | proceeded g stage hp => exact .inl hp.older
  | attached g x _ _ ha => exact .inl ha.older.1
  | handed g d rest x deadline h₁ hs hst hd =>
    exact .inr ⟨g, d, rest, x, deadline, h₁, hs, hst, hd, rfl⟩
  | expired g deadline _ => exact .inl (older_expireAll.trans proceeds_leave.older)
  | answered x outcome _ _ ha =>
    cases ha with
    | mk h₁ hb hc _ =>
      have hcompleted : h₁.Older (h₁.complete x.wait outcome) := .same rfl .refl
      exact .inl ((hb.older.trans hcompleted).trans hc.toOlder)
  | called w _ _ => exact .inl (.same rfl .refl)
  | visited i w h₁ _ hv hend =>
    rcases hend with rfl | rfl
    · exact .inl hv.visited.toOlder
    · exact .inl (hv.visited.toOlder.trans older_disposeIfUnowned)
  | disposed => exact .inl older_dispose
  | dropped =>
    have hlet : h.Older { h with dropped := true } := .same rfl .refl
    exact .inl (hlet.trans older_disposeIfUnowned)

/-! A wait is completed. -/

/-- How a wait gets its outcome in a move. -/
inductive Completion (cfg : Setup M) (h h' : Harness M) (i : Nat) : Outcome M → Prop
  | answered (x : Claim M) (outcome : Outcome M) : x ∈ h.claims → x.wait = i →
    h.Answers cfg x outcome →
    (∀ e, outcome = .error e → e.isTerminal = true → h'.failure ≠ none) →
    Completion cfg h h' i outcome
  | failed (e : HarnessError) : h.failure = none → h'.failure = some e → e.isFault = true →
    i ∈ h.roll → Completion cfg h h' i (.error e)
  | disposed : h.failure ≠ some .disposed → h'.failure = some .disposed →
    Completion cfg h h' i (.error .cancelled)
  | expired (g deadline : Nat) (v : Waiter M) : h.Lapses g deadline →
    h' = (h.expireAll cfg g).leave cfg g → v ∈ h.waiters → v.id = i →
    Completion cfg h h' i (.error (cfg.unacked v))

/-- What a move does to a wait. Its outcome does not change once it has one, and its stage changes
only as its own caller goes on. -/
structure Course (cfg : Setup M) (h h' : Harness M) (i : Nat) (w w' : Wait M) : Prop where
  predicate : w'.predicate = w.predicate
  stage : w'.stage = w.stage ∨ ∃ h₁, h.Visit cfg i w h₁ ∧ (h' = h₁ ∨ h' = h₁.dispose) ∧
    ∃ w₁, h₁.waits[i]? = some w₁ ∧ w'.stage = w₁.stage
  outcome : w'.outcome = w.outcome ∨
    w.outcome = .pending ∧ ∃ o, w'.outcome = .resolved o ∧ h.Completion cfg h' i o

theorem course_of_waits (hsame : h'.waits = h.waits) (hw : h.waits[i]? = some w) :
    ∃ w', h'.waits[i]? = some w' ∧ h.Course cfg h' i w w' :=
  ⟨w, hsame ▸ hw, rfl, .inl rfl, .inl rfl⟩

theorem Falls.waits (hf : h.Falls e h') : h'.waits = resolveAll h.waits h.waiters fun _ => e :=
  congrArg (·.2.1) hf.view

theorem Falls.waiters (hf : h.Falls e h') : h'.waiters = [] := congrArg (·.2.2.1) hf.view

theorem Falls.current (hf : h.Falls e h') : h'.current = none := congrArg (·.2.2.2.1) hf.view

theorem Falls.failure (hf : h.Falls e h') : h'.failure = some e := congrArg (·.2.2.2.2.1) hf.view

theorem Falls.clock (hf : h.Falls e h') : h'.clock = h.clock := congrArg (·.1) hf.view

theorem mem_roll_of_mem (hv : v ∈ h.waiters) (hid : v.id = i) : i ∈ h.roll :=
  List.mem_map.2 ⟨v, hv, hid⟩

/-- Whoever was listed is completed, and nobody else. -/
theorem course_of_resolveAll {error : Waiter M → HarnessError}
    (hwaits : h'.waits = resolveAll h.waits h.waiters error)
    (herror : ∀ v ∈ h.waiters, v.id = i → h.Completion cfg h' i (.error (error v)))
    (hw : h.waits[i]? = some w) : ∃ w', h'.waits[i]? = some w' ∧ h.Course cfg h' i w w' := by
  obtain ⟨w', hw', ⟨_, heq⟩ | ⟨v, hv, hid, heq⟩⟩ :=
    resolveAll_wait h.waiters error hw
  · exact ⟨w', hwaits ▸ hw', heq ▸ ⟨rfl, .inl rfl, .inl rfl⟩⟩
  · refine ⟨w', hwaits ▸ hw', ?_⟩
    subst heq
    refine ⟨rfl, .inl rfl, (w.outcome.resolve_cases _).imp_right ?_⟩
    exact fun ⟨hpending, ho⟩ => ⟨hpending, _, ho, herror v hv hid⟩

/-- A failure of the harness completes the waits of all listed waiters. -/
theorem Falls.wait (hf : h.Falls e h') (hw : h.waits[i]? = some w) :
    ∃ w', h'.waits[i]? = some w' ∧ w'.predicate = w.predicate ∧ w'.stage = w.stage ∧
      (w'.outcome = w.outcome ∨
        w.outcome = .pending ∧ w'.outcome = .resolved (.error e) ∧ i ∈ h.roll) := by
  rw [hf.waits]
  obtain ⟨w', hw', ⟨_, heq⟩ | ⟨v, hv, hid, heq⟩⟩ :=
    resolveAll_wait h.waiters (fun _ => e) hw
  · exact ⟨w', hw', heq ▸ rfl, heq ▸ rfl, .inl (heq ▸ rfl)⟩
  · subst heq
    refine ⟨_, hw', rfl, rfl, (w.outcome.resolve_cases _).imp_right ?_⟩
    exact fun ⟨hpending, ho⟩ => ⟨hpending, ho, mem_roll_of_mem hv hid⟩

theorem course_of_falls (hf : h.Falls e h') (hw : h.waits[i]? = some w) :
    ∃ w', h'.waits[i]? = some w' ∧ h.Course cfg h' i w w' := by
  obtain ⟨w', hw', hpredicate, hstage, houtcome⟩ := hf.wait hw
  refine ⟨w', hw', hpredicate, .inl hstage, houtcome.imp_right fun ⟨hpending, ho, hi⟩ => ?_⟩
  exact ⟨hpending, _, ho, .failed e hf.unfailed hf.failure hf.fault hi⟩

theorem course_of_business (hb : h.Business h')
    (hlt : ∀ g, h.current = some g → g < h.generations.length) (hw : h.waits[i]? = some w) :
    ∃ w', h'.waits[i]? = some w' ∧ h.Course cfg h' i w w' := by
  rcases hb.cases hlt with hc | ⟨e, hf⟩
  · exact course_of_waits hc.waits hw
  · exact course_of_falls hf hw

/-- A claim is answered for, and its wait completed. -/
theorem course_of_answered {x : Claim M} {outcome : Outcome M} (hx : x ∈ h.claims)
    (hanswers : h.Answers cfg x outcome) (ha : h.Answered x.wait outcome h')
    (hlt : ∀ g, h.current = some g → g < h.generations.length) (hw : h.waits[i]? = some w) :
    ∃ w', h'.waits[i]? = some w' ∧ h.Course cfg h' i w w' := by
  cases ha with
  | mk h₁ hb hc herrors =>
    -- The harness may fail on the way, and with it the waits of those who are listed.
    have hbefore : ∃ w₁, h₁.waits[i]? = some w₁ ∧ w₁.predicate = w.predicate ∧
        w₁.stage = w.stage ∧ (w₁.outcome = w.outcome ∨
          w.outcome = .pending ∧ ∃ o, w₁.outcome = .resolved o ∧ h.Completion cfg h' i o) := by
      rcases hb.cases hlt with hcalm | ⟨e, hf⟩
      · exact ⟨w, hcalm.waits ▸ hw, rfl, rfl, .inl rfl⟩
      · obtain ⟨w₁, hw₁, hpredicate, hstage, houtcome⟩ := hf.wait hw
        refine ⟨w₁, hw₁, hpredicate, hstage, houtcome.imp_right fun ⟨hpending, ho, hi⟩ => ?_⟩
        exact ⟨hpending, _, ho, .failed e hf.unfailed (hc.failure.trans hf.failure) hf.fault hi⟩
    obtain ⟨w₁, hw₁, hpredicate, hstage, houtcome⟩ := hbefore
    have hwaits : h'.waits = (h₁.complete x.wait outcome).waits := hc.waits
    rw [hwaits]
    by_cases hi : x.wait = i
    · subst hi
      refine ⟨{ w₁ with outcome := w₁.outcome.resolve outcome }, ?_, hpredicate, .inl hstage, ?_⟩
      · rw [complete, changeWait, List.getElem?_modify_eq, hw₁]
        rfl
      · cases ho : w₁.outcome with
        | pending =>
          have hpending : w.outcome = .pending := by
            rcases houtcome with heq | ⟨hp, _⟩
            · exact heq.symm.trans ho
            · exact hp
          refine .inr ⟨hpending, outcome, rfl, .answered x outcome hx rfl hanswers fun e he ht => ?_⟩
          rw [show h'.failure = h₁.failure from hc.failure]
          exact herrors e he ht
        | resolved o =>
          simp only [OneShot.resolve_resolved]
          exact ho ▸ houtcome
    · refine ⟨w₁, ?_, hpredicate, .inl hstage, houtcome⟩
      rw [complete, changeWait, List.getElem?_modify_ne _ _ hi, hw₁]

/-- Disposing of the harness cancels the waits of all listed waiters. -/
theorem dispose_wait (hw : h.waits[i]? = some w) :
    ∃ w', h.dispose.waits[i]? = some w' ∧ w'.predicate = w.predicate ∧ w'.stage = w.stage ∧
      (w'.outcome = w.outcome ∨ w.outcome = .pending ∧
        w'.outcome = .resolved (.error .cancelled) ∧ h.failure ≠ some .disposed ∧
        h.dispose.failure = some .disposed) := by
  by_cases hf : h.failure = some .disposed
  · exact ⟨w, by rw [dispose_of_disposed hf, hw], rfl, rfl, .inl rfl⟩
  · have hview := dispose_view hf
    have hwaits : h.dispose.waits = resolveAll h.waits h.waiters fun _ => .cancelled :=
      congrArg (·.2.1) hview
    obtain ⟨w', hw', ⟨_, heq⟩ | ⟨v, _, _, heq⟩⟩ :=
      resolveAll_wait h.waiters (fun _ => .cancelled) hw
    · exact ⟨w', hwaits ▸ hw', heq ▸ rfl, heq ▸ rfl, .inl (heq ▸ rfl)⟩
    · refine ⟨w', hwaits ▸ hw', ?_⟩
      subst heq
      refine ⟨rfl, rfl, (w.outcome.resolve_cases _).imp_right ?_⟩
      exact fun ⟨hpending, ho⟩ => ⟨hpending, ho, hf, congrArg (·.2.2.2.2.1) hview⟩

theorem course_of_dispose (hw : h.waits[i]? = some w) :
    ∃ w', h.dispose.waits[i]? = some w' ∧ h.Course cfg h.dispose i w w' := by
  obtain ⟨w', hw', hpredicate, hstage, houtcome⟩ := dispose_wait hw
  refine ⟨w', hw', hpredicate, .inl hstage, houtcome.imp_right ?_⟩
  rintro ⟨hpending, ho, hf, hf'⟩
  exact ⟨hpending, _, ho, .disposed hf hf'⟩

/-- In a visit only the stage of the wait changes. -/
theorem Visit.wait {u : Wait M} (hv : h.Visit cfg j u h₁) (hu : h.waits[j]? = some u)
    (hw : h.waits[i]? = some w) :
    ∃ w₁, h₁.waits[i]? = some w₁ ∧ w₁.predicate = w.predicate ∧ w₁.outcome = w.outcome ∧
      (w₁.stage = w.stage ∨ h.Visit cfg i w h₁) := by
  obtain ⟨stage, hwaits⟩ := hv.visited.waits
  rw [hwaits]
  by_cases hj : i = j
  · subst hj
    obtain rfl := Option.some.inj (hu.symm.trans hw)
    exact ⟨_, waits_enterWait_self hw, rfl, rfl, .inr hv⟩
  · exact ⟨w, (waits_enterWait_of_ne hj).trans hw, rfl, rfl, .inl rfl⟩

theorem course_of_visit {u : Wait M} (hv : h.Visit cfg j u h₁) (hu : h.waits[j]? = some u)
    (hend : h' = h₁ ∨ h' = h₁.dispose) (hw : h.waits[i]? = some w) :
    ∃ w', h'.waits[i]? = some w' ∧ h.Course cfg h' i w w' := by
  obtain ⟨w₁, hw₁, hpredicate, houtcome, hstage⟩ := hv.wait hu hw
  have hstage' : ∀ w' : Wait M, w'.stage = w₁.stage → w'.stage = w.stage ∨
      ∃ h₁, h.Visit cfg i w h₁ ∧ (h' = h₁ ∨ h' = h₁.dispose) ∧
        ∃ w₁, h₁.waits[i]? = some w₁ ∧ w'.stage = w₁.stage :=
    fun w' heq => hstage.imp (fun hs => heq.trans hs) fun hv => ⟨h₁, hv, hend, w₁, hw₁, heq⟩
  rcases hend with rfl | rfl
  · exact ⟨w₁, hw₁, hpredicate, hstage' w₁ rfl, .inl houtcome⟩
  · obtain ⟨w', hw', hpredicate', hs, houtcome'⟩ := dispose_wait hw₁
    refine ⟨w', hw', hpredicate'.trans hpredicate, hstage' w' hs, ?_⟩
    rw [houtcome, hv.visited.failure] at houtcome'
    exact houtcome'.imp_right fun ⟨hp, ho, hf, hf'⟩ => ⟨hp, _, ho, .disposed hf hf'⟩

/-- The harness keeps all that its current generation is looked up by. -/
theorem current_lt_expireAll (hlt : ∀ k, h.current = some k → k < h.generations.length) (k : Nat)
    (hk : (h.expireAll cfg g).current = some k) : k < (h.expireAll cfg g).generations.length := by
  rw [expireAll_cleared] at hk ⊢
  exact (hlt k hk).trans_eq length_changeGeneration.symm

/-- After the waiters failed because of an unmatched delivery, they are completed and nobody is
listed. -/
theorem waits_expired (hlt : ∀ g, h.current = some g → g < h.generations.length) :
    ((h.expireAll cfg g).leave cfg g).waits = resolveAll h.waits h.waiters cfg.unacked ∧
      ((h.expireAll cfg g).leave cfg g).waiters = [] := by
  have hp : (h.expireAll cfg g).Proceeds g .ended ((h.expireAll cfg g).leave cfg g) := proceeds_leave
  have hcleared : h.expireAll cfg g = (h.cleared cfg.unacked).changeLife g (·.stop) :=
    expireAll_cleared
  rcases hp.cases (current_lt_expireAll hlt) with ⟨hq, _⟩ | ⟨e, hf⟩
  · rw [hq.waits, hq.waiters, hcleared]
    exact ⟨rfl, rfl⟩
  · rw [hf.waits, hf.waiters, hcleared]
    exact ⟨rfl, rfl⟩

/-- What a move does to a wait. -/
theorem Happening.course (hh : h.Happening cfg h')
    (hlt : ∀ g, h.current = some g → g < h.generations.length) (hw : h.waits[i]? = some w) :
    ∃ w', h'.waits[i]? = some w' ∧ h.Course cfg h' i w w' := by
  cases hh with
  | ticked => exact course_of_waits rfl hw
  | busy hb => exact course_of_business hb hlt hw
  | proceeded g stage hp =>
    rcases hp.cases hlt with ⟨hq, _⟩ | ⟨e, hf⟩
    · exact course_of_waits hq.waits hw
    · exact course_of_falls hf hw
  | attached g x _ _ ha => exact course_of_waits (congrArg (·.2.1) ha.older.2.1) hw
  | handed g d rest x deadline h₁ _ _ hd =>
    refine course_of_waits ?_ hw
    have hsame : h₁.waits = h.waits := by cases hd <;> rfl
    split <;> exact hsame
  | expired g deadline hl =>
    exact course_of_resolveAll (waits_expired hlt).1
      (fun v hv hid => .expired g deadline v hl rfl hv hid) hw
  | answered x outcome hx hanswers ha => exact course_of_answered hx hanswers ha hlt hw
  | called u _ _ =>
    refine ⟨w, ?_, rfl, .inl rfl, .inl rfl⟩
    exact (List.getElem?_append_left (List.getElem?_eq_some_iff.1 hw).1).trans hw
  | visited j u h₁ hu hv hend => exact course_of_visit hv hu (eq_or_dispose hend) hw
  | disposed => exact course_of_dispose hw
  | dropped =>
    rcases disposeIfUnowned_cases { h with dropped := true } with heq | heq
    · exact course_of_waits (congrArg (·.waits) heq) hw
    · rw [heq]
      obtain ⟨w', hw', hpredicate, hstage, houtcome⟩ :=
        dispose_wait (h := { h with dropped := true }) hw
      refine ⟨w', hw', hpredicate, .inl hstage, houtcome.imp_right ?_⟩
      rintro ⟨hpending, ho, hf, hf'⟩
      exact ⟨hpending, _, ho, .disposed hf hf'⟩

/-! A waiter leaves the list. -/

/-- What stays of a wait, whatever happens. -/
structure Abides (w w' : Wait M) : Prop where
  predicate : w'.predicate = w.predicate
  outcome : ∀ o, w.outcome = .resolved o → w'.outcome = .resolved o
  stage : w.stage.isOver = true → w'.stage = w.stage

theorem Abides.lapsed (ha : Abides w w') (hl : w.Lapsed) : w'.Lapsed := by
  obtain ⟨e, he, ho | hs⟩ := hl
  · exact ⟨e, he, .inl (ha.outcome _ ho)⟩
  · exact ⟨e, he, .inr ((ha.stage (by rw [hs]; rfl)).trans hs)⟩

theorem Abides.dropped (ha : Abides w w') (hs : w.stage = .dropped) : w'.stage = .dropped :=
  (ha.stage (by rw [hs]; rfl)).trans hs

theorem roll_of_unlist (hi : i ∈ h.roll) (hj : i ≠ j) (hw : h₁.waiters = (h.unlist j).waiters) :
    i ∈ h₁.roll := by
  have hmem : i ∈ (h.unlist j).roll := by
    rw [mem_roll, waitersOf_unlist_of_ne hj]
    exact mem_roll.1 hi
  rw [roll, hw]
  exact hmem

theorem waiters_deregister : (h.deregister i).waiters = (h.unlist i).waiters := by
  rcases deregister_cases h i with heq | ⟨g, heq⟩
  · rw [heq]
  · rw [heq]
    rfl

theorem waits_deregister : (h.deregister i).waits = h.waits := by
  rcases deregister_cases h i with heq | ⟨g, heq⟩
  · rw [heq]
    rfl
  · rw [heq]
    rfl

theorem roll_of_append (hi : i ∈ h.roll) (hw : h₁.waiters = h.waiters ++ [v]) : i ∈ h₁.roll := by
  rw [roll, hw, List.map_append]
  exact List.mem_append_left _ hi

theorem waiters_expire (cfg : Setup M) (hw : h.waits[i]? = some w) :
    (h.expire cfg i).waiters = (h.unlist i).waiters ∧ (h.waitersOf i ≠ [] →
      ∃ v, (h.expire cfg i).waits[i]? = some { w with stage := .ended (.error (h.expiry cfg v)) }) := by
  have hfind : h.waiters.find? (·.id == i) = (h.waitersOf i).head? := (List.head?_filter).symm
  cases hv : h.waitersOf i with
  | nil =>
    rw [expire, hfind, hv, unlist_of_nil hv]
    exact ⟨rfl, fun hne => (hne rfl).elim⟩
  | cons v rest =>
    have hexpire : h.expire cfg i =
        (h.unlist i).stopIfIdle.finish i (.error (h.expiry cfg v)) := by
      rw [expire, hfind, hv]
      rfl
    rw [hexpire]
    rcases stopIfIdle_cases (h.unlist i) with hidle | ⟨g, hidle⟩
    · rw [hidle]
      exact ⟨rfl, fun _ => ⟨v, waits_enterWait_self (h := h.unlist i) hw⟩⟩
    · rw [hidle]
      exact ⟨rfl, fun _ => ⟨v, waits_enterWait_self (h := (h.unlist i).changeLife g _) hw⟩⟩

/-- Nobody else leaves the list in a visit. -/
theorem Visit.stays {u : Wait M} (hv : h.Visit cfg j u h₁) (hu : h.waits[j]? = some u)
    (hi : i ∈ h.roll) (hj : i ≠ j) : i ∈ h₁.roll := by
  cases hv with
  | turnedAway _ _ _ | accepted _ _ _ | awaited _ | armed _ | finished _ _ _ => exact hi
  | joined _ _ _ _ | created _ _ _ => exact roll_of_append hi rfl
  | refused _ _ _ _ | left _ => exact roll_of_unlist hi hj waiters_deregister
  | expired _ _ _ _ => exact roll_of_unlist hi hj (waiters_expire cfg hu).1

/-- Why a waiter leaves the list in a visit of its own wait. -/
theorem Visit.leaves (hv : h.Visit cfg i w h₁) (hw : h.waits[i]? = some w) (hi : i ∈ h.roll) :
    i ∈ h₁.roll ∨ (∃ g e, w.stage = .starting g ∧ (h.life g).started = .resolved (.error e)) ∨
      ∃ w₁, h₁.waits[i]? = some w₁ ∧ (w₁.stage = .dropped ∨ w₁.Lapsed) := by
  cases hv with
  | turnedAway _ _ _ | accepted _ _ _ | awaited _ | armed _ | finished _ _ _ => exact .inl hi
  | joined _ _ _ _ | created _ _ _ => exact .inl (roll_of_append hi rfl)
  | refused g e hs he => exact .inr (.inl ⟨g, e, hs, he⟩)
  | left _ =>
    have hwaits : (h.deregister i).waits[i]? = some w := by rw [waits_deregister, hw]
    exact .inr (.inr ⟨_, waits_enterWait_self hwaits, .inl rfl⟩)
  | expired _ _ _ _ =>
    obtain ⟨v, hended⟩ := (waiters_expire cfg hw).2 (mem_roll.1 hi)
    refine .inr (.inr ⟨_, hended, .inr ⟨_, ?_, .inr rfl⟩⟩)
    rw [expiry, Waiter.timeoutError_report?]
    exact Option.some_ne_none _

/-- As long as somebody is listed, the current generation may still start. -/
theorem Paired.unrefused (hp : h.Paired) (ha : h.Attended cfg) (hlisted : h.waiters ≠ [])
    (hc : h.current = some g) : (h.life g).started ≠ .resolved (.error e) := by
  intro he
  obtain ⟨l, hl, hobs⟩ := hp.observed hlisted
  obtain ⟨k, hk⟩ := List.getElem?_of_mem hl
  obtain rfl : k = g := Option.some.inj ((hp.current_observes k l hk hobs).symm.trans hc)
  rw [life_of_some hk] at he
  have hsignalled := ha.signalled l hl
  rcases GenerationState.isObserving_iff.1 hobs with hs | hs
  · rw [hsignalled.unstarted hs] at he
    cases he
  · rw [hsignalled.started hs] at he
    cases he

/-- The wait of a listed waiter has no outcome, and its generation is the current one. -/
theorem Attended.wait_of_roll (ha : h.Attended cfg) (hi : i ∈ h.roll) :
    ∃ w g, h.waits[i]? = some w ∧ w.outcome = .pending ∧ h.claimsOf i = [] ∧
      h.current = some g ∧ (w.stage = .starting g ∨ w.stage.isAccepted = true) := by
  have hlisted := mem_roll.1 hi
  cases hw : h.waits[i]? with
  | none => exact (hlisted (ha.nobody i hw).1).elim
  | some w =>
    cases ha.placed i w hw with
    | calling hv _ _ _ | claimed _ hv _ _ | apart hv _ _ _ _ => exact (hlisted hv).elim
    | listed v g _ hx hpending _ hg hs =>
      exact ⟨w, g, rfl, hpending, hx, hg, hs.imp_right (·.1)⟩

/-- Whoever is listed waits for the current generation, which may still start. -/
theorem Paired.unrefused_of_roll (hp : h.Paired) (ha : h.Attended cfg) (hi : i ∈ h.roll)
    (hw : h.waits[i]? = some w) (hs : w.stage = .starting g) :
    (h.life g).started ≠ .resolved (.error e) := by
  obtain ⟨u, k, hu, _, _, hcurrent, hstage⟩ := ha.wait_of_roll hi
  obtain rfl := Option.some.inj (hw.symm.trans hu)
  have hk : k = g := by
    rw [hs] at hstage
    rcases hstage with hst | hst <;> cases hst
    rfl
  have hlisted : h.waiters ≠ [] := by
    rintro hnil
    rw [roll, hnil] at hi
    cases hi
  exact hp.unrefused ha hlisted (hk ▸ hcurrent)

theorem Dispatched.stays {deadline : Option Nat} {d : Delivery} {rest : List Delivery}
    (hd : h.Dispatched cfg g deadline d rest h') (hi : i ∈ h.roll) :
    i ∈ h'.roll ∨ ∃ x ∈ h'.claims, x.wait = i := by
  cases hd with
  | unclaimed _ =>
    left
    change i ∈ (cfg.seen d h.waiters).map (·.id)
    rw [roll_seen]
    exact hi
  | claimed message before v behind _ hsplit _ _ =>
    rw [roll, hsplit, List.map_append, List.mem_append, List.map_cons, List.mem_cons] at hi
    rw [roll]
    change i ∈ (cfg.seen d before ++ behind).map (·.id) ∨ _
    rw [List.map_append, roll_seen, List.mem_append]
    rcases hi with hi | rfl | hi
    · exact .inl (.inl hi)
    · exact .inr ⟨v.claim g d message (cfg.callback message h.claims.length),
        List.mem_append_right _ (List.mem_singleton.2 rfl), rfl⟩
    · exact .inl (.inr hi)

theorem Dispatched.roll_sublist {deadline : Option Nat} {d : Delivery} {rest : List Delivery}
    (hd : h.Dispatched cfg g deadline d rest h') : h'.roll.Sublist h.roll := by
  cases hd with
  | unclaimed _ =>
    change ((cfg.seen d h.waiters).map (·.id)).Sublist _
    rw [roll_seen]
    exact .refl _
  | claimed message before v behind _ hsplit _ _ =>
    change ((cfg.seen d before ++ behind).map (·.id)).Sublist (h.waiters.map (·.id))
    rw [hsplit, List.map_append, roll_seen, List.map_append]
    exact (List.sublist_cons_self ..).append_left _

theorem failure_dispose : h.dispose.failure = some .disposed := by
  by_cases hf : h.failure = some .disposed
  · rw [dispose_of_disposed hf, hf]
  · rw [dispose_eq hf]

/-- Whoever leaves the list without a claim has given up, a deadline has passed for its wait, or the
harness has failed or is disposed of, and its wait was completed. -/
def Leaves (h' : Harness M) (w' : Wait M) : Prop :=
  w'.stage = .dropped ∨ w'.Lapsed ∨ h'.failure ≠ none ∧ w'.outcome ≠ .pending

/-- The waits of all listed waiters are completed. -/
theorem resolveAll_of_roll (error : Waiter M → HarnessError) (hw : h.waits[i]? = some w)
    (hi : i ∈ h.roll) (hp : w.outcome = .pending) :
    ∃ v ∈ h.waiters, v.id = i ∧ (resolveAll h.waits h.waiters error)[i]? =
      some { w with outcome := .resolved (.error (error v)) } := by
  obtain ⟨w', hw', ⟨hnobody, _⟩ | ⟨v, hv, hid, heq⟩⟩ :=
    resolveAll_wait h.waiters error hw
  · obtain ⟨v, hv, hid⟩ := List.mem_map.1 hi
    exact (hnobody v hv hid).elim
  · rw [hp, OneShot.resolve_pending] at heq
    exact ⟨v, hv, hid, heq ▸ hw'⟩

theorem leaves_of_ended {error : Waiter M → HarnessError} (hw : h.waits[i]? = some w)
    (hi : i ∈ h.roll) (hp : w.outcome = .pending) (hf : h'.failure ≠ none)
    (hwaits : h'.waits = resolveAll h.waits h.waiters error) :
    ∃ w', h'.waits[i]? = some w' ∧ h'.Leaves w' := by
  obtain ⟨v, _, _, hresolved⟩ := resolveAll_of_roll error hw hi hp
  exact ⟨_, hwaits ▸ hresolved, .inr (.inr ⟨hf, by simp⟩)⟩

/-- The harness is disposed of after the visit of a wait, perhaps. -/
theorem leaves_disposed (hw : h.waits[i]? = some w) (hp : w.outcome = .pending)
    (hend : h' = h ∨ h' = h.dispose)
    (hleft : i ∈ h.roll ∨ w.stage = .dropped ∨ w.Lapsed) :
    i ∈ h'.roll ∨ ∃ w', h'.waits[i]? = some w' ∧ h'.Leaves w' := by
  rcases hend with rfl | rfl
  · exact hleft.imp_right fun hleft => ⟨w, hw, hleft.imp_right .inl⟩
  · by_cases hf : h.failure = some .disposed
    · rw [dispose_of_disposed hf]
      exact hleft.imp_right fun hleft => ⟨w, hw, hleft.imp_right .inl⟩
    · rcases hleft with hi | hleft
      · exact .inr (leaves_of_ended hw hi hp (by simp [failure_dispose])
          (congrArg (·.2.1) (dispose_view hf)))
      · obtain ⟨w', hw', hpredicate, hstage, houtcome⟩ := dispose_wait hw
        have habides : Abides w w' := ⟨hpredicate, fun o ho => by simp [hp] at ho, fun _ => hstage⟩
        exact .inr ⟨w', hw', hleft.imp habides.dropped fun hl => .inl (habides.lapsed hl)⟩

/-- Who has an outcome keeps it. -/
theorem complete_wait {o : Outcome M} (hw : h.waits[i]? = some w) :
    ∃ w', (h.complete j o).waits[i]? = some w' ∧
      ∀ r, w.outcome = .resolved r → w'.outcome = .resolved r := by
  rw [complete, changeWait, List.getElem?_modify, hw]
  by_cases hj : j = i
  · exact ⟨{ w with outcome := w.outcome.resolve o }, by simp [hj],
      fun r hr => OneShot.resolve_of_resolved hr⟩
  · exact ⟨w, by simp [hj], fun _ hr => hr⟩

/-- A listed waiter stays on the list in a visit, unless its caller gives up or its deadline passes. -/
theorem Visit.keeps {u w₁ : Wait M} (hv : h.Visit cfg j u h₁) (ha : h.Attended cfg) (hp : h.Paired)
    (hu : h.waits[j]? = some u) (hi : i ∈ h.roll) (hw₁ : h₁.waits[i]? = some w₁) :
    i ∈ h₁.roll ∨ w₁.stage = .dropped ∨ w₁.Lapsed := by
  by_cases hj : i = j
  · subst hj
    rcases hv.leaves hu hi with hstays | ⟨g, e, hs, he⟩ | ⟨w₂, hw₂, hleft⟩
    · exact .inl hstays
    · exact (hp.unrefused_of_roll ha hi hu hs he).elim
    · obtain rfl := Option.some.inj (hw₁.symm.trans hw₂)
      exact .inr hleft
  · exact .inl (hv.stays hu hi hj)

/-- A failure completes whoever is listed, also if a claim is answered for afterwards. -/
theorem Falls.leaves {x : Claim M} {o : Outcome M} (hf : h.Falls e h₁) (hw : h.waits[i]? = some w)
    (hi : i ∈ h.roll) (hp : w.outcome = .pending) (hc : (h₁.complete x.wait o).Calm h') :
    ∃ w', h'.waits[i]? = some w' ∧ h'.Leaves w' := by
  obtain ⟨v, _, _, hresolved⟩ := resolveAll_of_roll (fun _ => e) hw hi hp
  obtain ⟨w', hw', hresolved'⟩ := complete_wait (j := x.wait) (o := o) (hf.waits ▸ hresolved)
  refine ⟨w', ?_, .inr (.inr ⟨?_, ?_⟩)⟩
  · rw [show h'.waits = (h₁.complete x.wait o).waits from hc.waits, hw']
  · rw [show h'.failure = h₁.failure from hc.failure, hf.failure]
    exact Option.some_ne_none _
  · simp [hresolved' _ rfl]

/-- A listed waiter stays on the list unless it claims a delivery, the harness fails or is disposed
of, its caller gives up, or a deadline passes. -/
theorem Happening.stays (hh : h.Happening cfg h') (ha : h.Attended cfg) (hp : h.Paired)
    (hi : i ∈ h.roll) : i ∈ h'.roll ∨ (∃ x ∈ h'.claims, x.wait = i) ∨
      ∃ w', h'.waits[i]? = some w' ∧ h'.Leaves w' := by
  have hlt := hp.exists_current
  have hsame : ∀ {h₁ : Harness M}, h₁.waiters = h.waiters → i ∈ h₁.roll := by
    intro h₁ heq
    rw [roll, heq]
    exact hi
  obtain ⟨w, _, hw, hpending, _⟩ := ha.wait_of_roll hi
  have hfalls : ∀ {e : HarnessError}, h.Falls e h' → ∃ w', h'.waits[i]? = some w' ∧ h'.Leaves w' :=
    fun hf => leaves_of_ended hw hi hpending (by simp [hf.failure]) hf.waits
  cases hh with
  | ticked | called _ _ _ => exact .inl hi
  | busy hb =>
    rcases hb.cases hlt with hc | ⟨e, he⟩
    · exact .inl (hsame hc.waiters)
    · exact .inr (.inr (hfalls he))
  | proceeded g stage hpro =>
    rcases hpro.cases hlt with ⟨hq, _⟩ | ⟨e, he⟩
    · exact .inl (hsame hq.waiters)
    · exact .inr (.inr (hfalls he))
  | attached g x _ _ hatt => exact .inl (hsame (congrArg (·.2.2.1) hatt.older.2.1))
  | handed g d rest x deadline h₁ _ _ hd =>
    have hstays := hd.stays hi
    split <;> exact hstays.imp_right .inl
  | expired g deadline hl =>
    obtain ⟨v, _, _, hresolved⟩ := resolveAll_of_roll cfg.unacked hw hi hpending
    refine .inr (.inr ⟨_, (waits_expired hlt).1 ▸ hresolved,
      .inr (.inl ⟨cfg.unacked v, ?_, .inl rfl⟩)⟩)
    rw [Setup.unacked, Waiter.timeoutError_report?]
    exact Option.some_ne_none _
  | answered x outcome hx _ hans =>
    cases hans with
    | mk h₁ hb hc _ =>
      have hwaiters : h'.waiters = h₁.waiters := hc.waiters
      rcases hb.cases hlt with hc' | ⟨e, he⟩
      · exact .inl (hsame (hwaiters.trans hc'.waiters))
      · exact .inr (.inr (he.leaves hw hi hpending hc))
  | visited j u h₁ hu hv hend =>
    obtain ⟨w₁, hw₁, _, houtcome, _⟩ := hv.wait hu hw
    refine (leaves_disposed hw₁ (houtcome.trans hpending) (eq_or_dispose hend) ?_).imp_right .inr
    exact hv.keeps ha hp hu hi hw₁
  | disposed =>
    exact (leaves_disposed hw hpending (.inr rfl) (.inl hi)).imp_right .inr
  | dropped =>
    have hlet : ({ h with dropped := true } : Harness M).waits[i]? = some w := hw
    refine (leaves_disposed hlet hpending ?_ (.inl hi)).imp_right .inr
    exact disposeIfUnowned_cases _

/-! Runs. -/

theorem Visit.not_over (hv : h.Visit cfg i w h₁) : w.stage.isOver = false := by
  cases hv with
  | turnedAway _ hs _ | joined _ hs _ _ | created hs _ _ | accepted _ hs _ | refused _ _ hs _
  | awaited hs | armed hs | expired _ hs _ _ => rw [hs]; rfl
  | finished _ hs _ =>
    rcases hs with ⟨_, hs⟩ | hs <;> rw [hs] <;> rfl
  | left hs =>
    cases hst : w.stage <;> simp_all [WaitStage.isRegistering, WaitStage.isAccepted, WaitStage.isOver]

theorem Course.abides (hc : h.Course cfg h' i w w') : Abides w w' where
  predicate := hc.predicate
  outcome := fun o ho => by
    rcases hc.outcome with heq | ⟨hpending, _⟩
    · rw [heq, ho]
    · rw [ho] at hpending
      cases hpending
  stage := fun hover => by
    rcases hc.stage with heq | ⟨_, hv, _⟩
    · exact heq
    · rw [hv.not_over] at hover
      cases hover

/-- A move that hands out nothing consists of deeds. -/
theorem Run.deeds_of_older (hr : Run cfg allowed s) (ho : (s n).Older (s (n + 1))) :
    Deeds True (s n) (s (n + 1)) := by
  rcases hr.turn n with hd | ⟨g, d, h₁, hrouted, hd⟩
  · exact hd
  · obtain ⟨_, hin, _⟩ := hrouted.handed
    have hsame := (Deeds.tidy ((hr.attended n).routed (hr.paired n) hrouted) hd).1.inbound g
    have hlen := (ho.inbound g).length_le
    rw [hsame, hin, List.length_cons] at hlen
    omega

theorem Run.current_lt (hr : Run cfg allowed s) (n g : Nat) (hc : (s n).current = some g) :
    g < (s n).generations.length :=
  (hr.paired n).exists_current g hc

theorem Run.course (hr : Run cfg allowed s) (n : Nat) (hw : (s n).waits[i]? = some w) :
    ∃ w', (s (n + 1)).waits[i]? = some w' ∧ (s n).Course cfg (s (n + 1)) i w w' :=
  (hr.happening n).course (hr.current_lt n) hw

theorem Run.wait_of_le (hr : Run cfg allowed s) (hle : m ≤ n) (hw : (s m).waits[i]? = some w) :
    ∃ w', (s n).waits[i]? = some w' ∧ Abides w w' := by
  induction n, hle using Nat.le_induction with
  | base => exact ⟨w, hw, rfl, fun _ ho => ho, fun _ => rfl⟩
  | succ n _ ih =>
    obtain ⟨w₁, hw₁, ha⟩ := ih
    obtain ⟨w', hw', hc⟩ := hr.course n hw₁
    have ha' := hc.abides
    refine ⟨w', hw', ha'.predicate.trans ha.predicate, fun o ho => ha'.outcome o (ha.outcome o ho),
      fun hover => ?_⟩
    have heq := ha.stage hover
    exact (ha'.stage (heq ▸ hover)).trans heq

end Harness
end Intercept
