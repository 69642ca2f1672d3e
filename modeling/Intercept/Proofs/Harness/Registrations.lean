import Intercept.Proofs.Harness.Openings

/-! A registration ends within two timeouts: its consumer is attached, or the caller learns how the
harness has ended. -/
namespace Intercept

/-- Consumers that take longer to start than the timeout, except for the first. -/
def Setup.sluggish : Setup Unit :=
  { Setup.bare with
    settings := { timeoutMs := 2 }
    connection.start := fun n => if n = 0 then .prompt else .delayed 5 }

namespace Harness
variable {M : Type} {cfg : Setup M} {allowed : Act M → Prop} {h h' h₁ : Harness M}
  {s : Nat → Harness M} {e : HarnessError} {g i k m n : Nat} {u w : Wait M}

/-- A caller asks for a wait with this move. -/
def Calls (h : Harness M) (i : Nat) (h' : Harness M) : Prop :=
  h.waits[i]? = none ∧ ∃ w, h'.waits[i]? = some w ∧ w.stage = .calling

/-- A registration that is under way since a time is told within two timeouts how it ends. -/
inductive RegistersBy (cfg : Setup M) (h : Harness M) (start : Nat) : WaitStage M → Prop
  | calling : h.clock = start → RegistersBy cfg h start .calling
  | starting (g : Nat) : h.clock ≤ start + 2 * cfg.timeout →
    (∀ x, h.generations[g]? = some x → x.life.started = .pending →
      x.stage.OpensBy cfg.timeout (start + 2 * cfg.timeout) h.clock) →
    RegistersBy cfg h start (.starting g)

theorem RegistersBy.clock_le {start : Nat} {stage : WaitStage M}
    (hr : h.RegistersBy cfg start stage) : h.clock ≤ start + 2 * cfg.timeout := by
  cases hr with
  | calling heq => omega
  | starting g hle _ => exact hle

theorem ready_of_calling (cfg : Setup M) (hw : h.waits[i]? = some w) (hs : w.stage = .calling) :
    h.step? cfg (.wait i) = some (h.register i w) := by
  rw [step?, stepWait?, hw, Option.bind_eq_bind, Option.bind_some, hs]

theorem ready_of_answered (cfg : Setup M) {r : Except HarnessError Unit}
    (hw : h.waits[i]? = some w) (hs : w.stage = .starting g)
    (hr : (h.life g).started = .resolved r) : ∃ h', h.step? cfg (.wait i) = some h' := by
  rw [step?, stepWait?, hw, Option.bind_eq_bind, Option.bind_some, hs]
  simp only [hr, OneShot.get?_resolved, Option.bind_eq_bind, Option.bind_some]
  cases r <;> exact ⟨_, rfl⟩

/-- Once the owner has dropped it, a harness is disposed of only when nobody is registering. -/
theorem Ending.nobody_registering (hend : h.Ending cfg h') (hd : h'.failure = some .disposed)
    (hw : h'.waits[i]? = some w) (hs : w.stage.isRegistering = true) : h' = h.dispose := by
  cases hend with
  | failed e hf => exact (hf.undisposed hd).elim
  | lapsed g t e _ hf => exact (hf.undisposed hd).elim
  | answered x o e h₁ _ hf hc => exact (hf.undisposed (hc.failure.symm.trans hd)).elim
  | disposed _ heq => exact heq
  | dropped h₁ _ _ hnobody _ heq =>
    subst heq
    cases hu : h₁.waits[i]? with
    | none =>
      rw [none_dispose hu] at hw
      cases hw
    | some u =>
      obtain ⟨w', hw', _, hstage, _⟩ := dispose_wait hu
      obtain rfl := Option.some.inj (hw.symm.trans hw')
      have hnot := List.any_eq_false.1 hnobody u (List.mem_of_getElem? hu)
      rw [← hstage, hs] at hnot
      exact (hnot rfl).elim

theorem Visit.starting_of_registered (hv : h.Visit cfg i w h₁)
    (ht : h₁.notices = h.notices ++ [(i, .registered)]) :
    ∃ g, w.stage = .starting g ∧ (h.life g).started = .resolved (.ok ()) := by
  have hnone : h₁.notices ≠ h.notices := by simp [ht]
  have hother : ∀ {o : Outcome M}, h₁.notices ≠ h.notices ++ [(i, .result o)] := by simp [ht]
  cases hv with
  | accepted g hst hok => exact ⟨g, hst, hok⟩
  | joined _ _ _ _ | created _ _ _ | awaited _ | armed _ => exact (hnone rfl).elim
  | turnedAway _ _ _ | finished _ _ _ => exact (hother rfl).elim
  | refused _ _ _ _ => exact (hother (congrArg (· ++ [_]) notices_deregister)).elim
  | expired _ _ _ _ =>
    rw [expire] at hnone hother
    split at hnone
    · exact (hnone rfl).elim
    · next hfind =>
      simp only [hfind] at hother
      exact (hother (congrArg (· ++ [_]) notices_stopIfIdle)).elim
  | left _ => exact (hnone notices_deregister).elim

theorem Attended.unlisted_of_over (ha : h.Attended cfg) (hw : h.waits[i]? = some w)
    (hs : w.stage.isOver = true) : i ∉ h.roll := by
  intro hi
  obtain ⟨u, g, hu, _, _, _, hstage⟩ := ha.wait_of_roll hi
  obtain rfl := Option.some.inj (hw.symm.trans hu)
  rcases hstage with hst | hst
  · rw [hst] at hs
    cases hs
  · cases hst' : w.stage <;> simp_all [WaitStage.isAccepted, WaitStage.isOver]

theorem Registers.listed (hregisters : h.Registers i w h') : i ∈ h'.roll := by
  rw [roll, hregisters.waiters, List.map_append]
  exact List.mem_append_right _ (List.mem_singleton.2 rfl)

/-- The harness ends with an error: it fails for the first time, or it is disposed of. -/
def EndsWith (h : Harness M) (e : HarnessError) (h' : Harness M) : Prop :=
  h'.failure = some e ∧ (h.failure = none ∨ h.failure ≠ some .disposed ∧ e = .disposed)

/-- The errors that a registration may have been refused with. -/
inductive Refuses (s : Nat → Harness M) (n : Nat) : HarnessError → Prop
  | cancelled : (s n).failure = some .disposed → Refuses s n .cancelled
  | ended (e : HarnessError) (m : Nat) : m < n → (s m).EndsWith e (s (m + 1)) → Refuses s n e

/-- The waiter of a wait is listed, or it has left the list with a delivery, or it was completed as
one was not settled in time or as the harness ended. -/
inductive Attends (cfg : Setup M) (h : Harness M) (i : Nat) : Prop
  | listed : i ∈ h.roll → Attends cfg h i
  | matched (x : Claim M) : x ∈ h.claims → x.wait = i → Attends cfg h i
  | expired (w : Wait M) (v : Waiter M) : h.waits[i]? = some w → v.id = i →
    w.outcome = .resolved (.error (cfg.unacked v)) → Attends cfg h i
  | failed (w : Wait M) (e : HarnessError) : h.waits[i]? = some w →
    w.outcome = .resolved (.error e) → h.failure ≠ none → Attends cfg h i

/-- A caller has its wait. The broker had confirmed the consumer that it waited for, and its waiter
was attended to since it was listed. -/
structure Accepts (cfg : Setup M) (s : Nat → Harness M) (i k : Nat) : Prop where
  told : (s k).told i = [] ∧ (s (k + 1)).told i = [.registered]
  starting : ∃ w g, (s k).waits[i]? = some w ∧ w.stage = .starting g ∧
    (∃ m < k, (s m).Opens cfg g (s (m + 1))) ∧
    ∃ m < k, ∃ u v, (s m).waits[i]? = some u ∧ (s m).Registers i u (s (m + 1)) ∧
      (s (m + 1)).waits[i]? = some v ∧ v.stage = .starting g ∧
      ∀ n, m < n → n ≤ k → (s n).Attends cfg i

section
variable (hr : Run cfg allowed s)
include hr

/-! How long it takes. -/

theorem Run.called (hw : (s n).waits[i]? = some w) : ∃ k < n, (s k).Calls i (s (k + 1)) := by
  induction n generalizing w with
  | zero =>
    rw [hr.start] at hw
    cases hw
  | succ n ih =>
    cases hu : (s n).waits[i]? with
    | none =>
      obtain ⟨hcalling, _⟩ := (hr.happening n).newcomer (hr.current_lt n) hu hw
      exact ⟨n, Nat.lt_succ_self n, hu, w, hw, hcalling⟩
    | some u =>
      obtain ⟨k, hk, hcalls⟩ := ih hu
      exact ⟨k, Nat.lt_succ_of_lt hk, hcalls⟩

/-- The clock moves neither before a registration is made nor once its consumer is answered for. -/
theorem Run.registersBy_tick (hp : Punctual cfg s) {start : Nat} (hw : (s n).waits[i]? = some w)
    (hs : w.stage.isRegistering = true) (hby : (s n).RegistersBy cfg start w.stage) :
    (s (n + 1)).RegistersBy cfg start w.stage := by
  generalize hst : w.stage = stage at hby hs
  cases hby with
  | calling heq =>
    rw [← hp.still (ready_of_calling cfg hw hst)] at heq
    exact .calling heq
  | starting g hle hopens =>
    have hx := List.getElem?_eq_getElem ((hr.founded n).2 i w g hw hst)
    refine .starting g ?_ fun y hy hpending => ?_
    · cases hstarted : ((s n).life g).started with
      | resolved r =>
        obtain ⟨h', hready⟩ := ready_of_answered cfg hw hst hstarted
        rwa [hp.still hready]
      | pending =>
        rw [life_of_some (lives_of_some hx)] at hstarted
        exact (hr.opensBy_tick hp hx (hopens _ hx hstarted)).clock_le
    · have hbefore : ((s n).life g).started = .pending :=
        hr.pending_of_succ (by rwa [life_of_some (lives_of_some hy)])
      rw [life_of_some (lives_of_some hx)] at hbefore
      exact hr.opensBy_succ hp hx hy hpending (hopens _ hx hbefore)

theorem Run.registersBy (hp : Punctual cfg s) (hc : (s k).Calls i (s (k + 1))) (hlt : k < n)
    (hw : (s n).waits[i]? = some w) (hs : w.stage.isRegistering = true) :
    (s n).RegistersBy cfg (s k).clock w.stage := by
  obtain ⟨hnone, w₁, hw₁, hcalling⟩ := hc
  induction n, hlt using Nat.le_induction generalizing w with
  | base =>
    obtain rfl := Option.some.inj (hw.symm.trans hw₁)
    rw [hcalling]
    rcases hr.clock_succ k with heq | heq
    · exact .calling heq
    · rw [heq] at hw
      change (s k).waits[i]? = some w at hw
      rw [hnone] at hw
      cases hw
  | succ n hlt ih =>
    obtain ⟨u, hu, _⟩ := hr.wait_of_le hlt hw₁
    rcases hr.advances hu hw with hsame | ⟨hadvances, hclock⟩
    · rw [hsame] at hs ⊢
      exact hr.registersBy_tick hp hu hs (ih hu hs)
    · generalize hst : w.stage = stage at hadvances hs
      cases hadvances with
      | starting g hcall =>
        have hby := ih hu (by rw [hcall]; rfl)
        rw [hcall] at hby
        cases hby with
        | calling heq =>
          rw [← hclock] at heq
          rw [← heq]
          exact .starting g (Nat.le_add_right _ _) fun y hy hpending => hr.opensBy hp hy hpending
      | refused | dropped | ended | registered | awaited | awaiting | overdue => cases hs

theorem Run.registering (hp : Punctual cfg s) (hw : (s n).waits[i]? = some w)
    (hs : w.stage.isRegistering = true) :
    ∃ k < n, (s k).Calls i (s (k + 1)) ∧ (s n).clock ≤ (s k).clock + 2 * cfg.timeout := by
  obtain ⟨k, hk, hcalls⟩ := hr.called hw
  exact ⟨k, hk, hcalls, (hr.registersBy hp hcalls hk hw hs).clock_le⟩

/-! Who is listed. -/

theorem Run.enlists (hu : (s n).waits[i]? = some u) (hcalling : u.stage = .calling)
    (hw : (s (n + 1)).waits[i]? = some w) (hs : w.stage = .starting g) :
    (s n).Registers i u (s (n + 1)) := by
  have hfree : i ∉ (s n).roll := fun hi =>
    mem_roll.1 hi ((hr.attended n).unlisted_of_calling hu hcalling)
  obtain ⟨w', hw', hcourse⟩ := hr.course n hu
  obtain rfl := Option.some.inj (hw.symm.trans hw')
  have hother : w.stage ≠ u.stage := by
    rw [hs, hcalling]
    nofun
  obtain ⟨h₁, hv, hend, w₁, hw₁, hstage⟩ := hcourse.stage.resolve_left hother
  have hi : i ∈ h₁.roll := by
    refine (hv.enlists hcalling hw₁ hu).resolve_left fun hover => ?_
    rw [← hstage, hs] at hover
    cases hover
  have hlisted : i ∈ (s (n + 1)).roll := by
    rcases hend with heq | heq
    · rwa [heq]
    · -- The owner may have dropped the harness, which is not disposed of while somebody registers.
      obtain ⟨_, _, hf, _⟩ := hv.joins hu hi hfree
      have hdisposed : (s (n + 1)).failure = some .disposed := by rw [heq, failure_dispose]
      rcases hr.ending n with hsame | hending
      · rw [hdisposed, hf] at hsame
        cases hsame
      · have hgone := hending.nobody_registering hdisposed hw (by rw [hs]; rfl)
        rw [hgone] at hw
        obtain ⟨w', hw', _, hsame, _⟩ := dispose_wait hu
        obtain rfl := Option.some.inj (hw.symm.trans hw')
        exact (hother hsame).elim
  obtain ⟨u', hu', _, hregisters⟩ := (hr.happening n).joins (hr.paired n) hlisted hfree
  obtain rfl := Option.some.inj (hu.symm.trans hu')
  exact hregisters

theorem Run.enlisted (hw : (s n).waits[i]? = some w) (hs : w.stage = .starting g) :
    ∃ m < n, ∃ u v, (s m).waits[i]? = some u ∧ (s m).Registers i u (s (m + 1)) ∧
      (s (m + 1)).waits[i]? = some v ∧ v.stage = .starting g := by
  refine hr.wait_induction (i := i) (P := fun n w => w.stage = .starting g →
      ∃ m < n, ∃ u v, (s m).waits[i]? = some u ∧ (s m).Registers i u (s (m + 1)) ∧
        (s (m + 1)).waits[i]? = some v ∧ v.stage = .starting g)
    (fun n w hcalling _ hs => ?_) (fun n u w hu hw _ ih hs => ?_) hw hs
  · rw [hcalling] at hs
    cases hs
  · rcases hr.advances hu hw with hsame | ⟨hadvances, _⟩
    · obtain ⟨m, hm, hregisters⟩ := ih (hsame.symm.trans hs)
      exact ⟨m, Nat.lt_succ_of_lt hm, hregisters⟩
    · generalize hst : w.stage = stage at hadvances hs
      subst hs
      cases hadvances with
      | starting _ hcalling =>
        exact ⟨n, Nat.lt_succ_self n, u, w, hu, hr.enlists hu hcalling hw hst, hw, hst⟩

/-- Whoever waits for a consumer stays on the list unless the harness fails, or the consumer is
attached. -/
theorem Run.listed_succ (hi : i ∈ (s n).roll) (hu : (s n).waits[i]? = some u)
    (hp : (s n).Poised g) (hw : (s (n + 1)).waits[i]? = some w) (hs : w.stage = .starting g)
    (hf : (s (n + 1)).failure = none) (hok : ((s (n + 1)).life g).started ≠ .resolved (.ok ())) :
    i ∈ (s (n + 1)).roll := by
  obtain ⟨u', _, hu', hpending, hunclaimed, _⟩ := (hr.attended n).wait_of_roll hi
  obtain rfl := Option.some.inj (hu.symm.trans hu')
  rcases hr.whereabouts hw with hst | hover | hi' | ⟨x, hx, rfl⟩ | ho
  · rw [hs] at hst
    cases hst
  · rw [hs] at hover
    cases hover
  · exact hi'
  · obtain ⟨w', hw', _, _, hbinds⟩ := (hr.attended (n + 1)).wait_of_claim hx
    obtain rfl := Option.some.inj (hw.symm.trans hw')
    exact (hok (hbinds.starting g hs).2).elim
  · obtain ⟨w', hw', hcourse⟩ := hr.course n hu
    obtain rfl := Option.some.inj (hw.symm.trans hw')
    rcases hcourse.outcome with hsame | ⟨_, o, _, hcompletion⟩
    · exact (ho (hsame.trans hpending)).elim
    · cases hcompletion with
      | answered x o hx hxi _ _ =>
        have hmem : x ∈ (s n).claimsOf i := List.mem_filter.2 ⟨hx, beq_iff_eq.2 hxi⟩
        rw [hunclaimed] at hmem
        cases hmem
      | failed e _ hfailed _ _ =>
        rw [hf] at hfailed
        cases hfailed
      | disposed _ hdisposed =>
        rw [hf] at hdisposed
        cases hdisposed
      | expired j t v hl _ _ _ =>
        -- Whoever has a deadline has started.
        have hcurrent := ((hr.paired n).current_of_watches hl.routing).1
        rw [hp.current] at hcurrent
        obtain rfl := Option.some.inj hcurrent
        obtain ⟨x, hx, hst, _⟩ := hl.routing
        have hinitial := hp.initial
        rw [life_of_some (lives_of_some hx)] at hinitial
        exact ((hr.attended n).opened g x _ hx hst hinitial).elim

theorem Run.listed (hw : (s n).waits[i]? = some w) (hs : w.stage = .starting g)
    (hpending : ((s n).life g).started = .pending) : i ∈ (s n).roll := by
  refine hr.wait_induction (i := i)
    (P := fun n w => w.stage = .starting g → ((s n).life g).started = .pending → i ∈ (s n).roll)
    (fun n w hcalling _ hs _ => ?_) (fun n u w hu hw _ ih hs hpending => ?_) hw hs hpending
  · rw [hcalling] at hs
    cases hs
  · have hp := hr.poised ((hr.founded (n + 1)).2 i w g hw hs) hpending
    rcases hr.advances hu hw with hsame | ⟨hadvances, _⟩
    · have hst := hsame.symm.trans hs
      have hbefore := hr.pending_of_succ hpending
      exact hr.listed_succ (ih hst hbefore) hu (hr.poised ((hr.founded n).2 i u g hu hst) hbefore)
        hw hs hp.failure (by rw [hpending]; nofun)
    · generalize hst : w.stage = stage at hadvances hs
      subst hs
      cases hadvances with
      | starting _ hcalling =>
        exact (hr.enlists hu hcalling hw hst).listed

/-- An outcome comes from a claim, or because a delivery was not settled in time, or from the end of
the harness. -/
theorem Run.attends_of_outcome (hw : (s n).waits[i]? = some w) (ho : w.outcome ≠ .pending) :
    (s n).Attends cfg i := by
  refine hr.wait_induction (i := i) (P := fun n w => (s n).waits[i]? = some w →
      w.outcome ≠ .pending → (s n).Attends cfg i)
    (fun n w _ hpending _ ho => (ho hpending).elim) (fun n u w hu _ hcourse ih hw ho => ?_) hw hw ho
  rcases hcourse.outcome with hsame | ⟨_, o, hout, hcompletion⟩
  · have hbefore := hsame.symm.trans_ne ho
    cases ih hu hbefore with
    | listed hi =>
      -- Whoever is listed has no outcome.
      obtain ⟨u', _, hu', hpending, _⟩ := (hr.attended n).wait_of_roll hi
      obtain rfl := Option.some.inj (hu.symm.trans hu')
      exact (hbefore hpending).elim
    | matched x hx hi =>
      obtain ⟨y, hy, hyi⟩ := hr.claim_succ ⟨x, hx, hi⟩
      exact .matched y hy hyi
    | expired u' v hu' hv hout =>
      obtain rfl := Option.some.inj (hu.symm.trans hu')
      exact .expired w v hw hv (hsame.trans hout)
    | failed u' e hu' hout hf =>
      obtain rfl := Option.some.inj (hu.symm.trans hu')
      exact .failed w e hw (hsame.trans hout) (hr.failed_of_le (Nat.le_succ n) hf)
  · cases hcompletion with
    | answered x o hx hi _ _ =>
      obtain ⟨y, hy, hyi⟩ := hr.claim_succ ⟨x, hx, hi⟩
      exact .matched y hy hyi
    | failed e _ hf _ _ => exact .failed w e hw hout (by rw [hf]; nofun)
    | disposed _ hf => exact .failed w _ hw hout (by rw [hf]; nofun)
    | expired g t v _ _ _ hv => exact .expired w v hw hv hout

theorem Run.attends (hw : (s n).waits[i]? = some w) (hcalled : w.stage ≠ .calling)
    (hover : w.stage.isOver = false) : (s n).Attends cfg i := by
  rcases hr.whereabouts hw with hst | hst | hi | ⟨x, hx, hi⟩ | ho
  · exact (hcalled hst).elim
  · rw [hover] at hst
    cases hst
  · exact .listed hi
  · exact .matched x hx hi
  · exact hr.attends_of_outcome hw ho

/-! How a registration ends. -/

theorem Run.ended_with (hf : (s n).failure = some e) : ∃ m < n, (s m).EndsWith e (s (m + 1)) := by
  induction n with
  | zero =>
    rw [hr.start] at hf
    cases hf
  | succ n ih =>
    rcases hr.ending n with hsame | hend
    · obtain ⟨m, hm, hends⟩ := ih (hsame.symm.trans hf)
      exact ⟨m, Nat.lt_succ_of_lt hm, hends⟩
    · refine ⟨n, Nat.lt_succ_self n, hf, ?_⟩
      rcases hend.failure with ⟨hnone, _⟩ | ⟨hne, hdisposed⟩
      · exact .inl hnone
      · rw [hf] at hdisposed
        exact .inr ⟨hne, Option.some.inj hdisposed⟩

theorem Run.refuses_succ (hrefuses : Refuses s n e) : Refuses s (n + 1) e := by
  cases hrefuses with
  | cancelled hdisposed =>
    refine .cancelled ?_
    rcases hr.failure_of_le (Nat.le_succ n) hdisposed with hd | hd <;> exact hd
  | ended _ m hm hends => exact .ended e m (Nat.lt_succ_of_lt hm) hends

/-- A consumer about to start for which somebody waits is cancelled only as the harness is disposed
of. -/
theorem Run.disposed_of_cancelled (hu : (s n).waits[i]? = some u) (hst : u.stage = .starting g)
    (hpending : ((s n).life g).started = .pending) (hw : (s (n + 1)).waits[i]? = some w)
    (hs : w.stage = .starting g)
    (he : ((s (n + 1)).life g).started = .resolved (.error .cancelled)) :
    (s (n + 1)).failure = some .disposed := by
  have hp := hr.poised ((hr.founded n).2 i u g hu hst) hpending
  have hf : (s (n + 1)).failure ≠ none := by
    intro hf
    have hi := hr.listed_succ (hr.listed hu hst hpending) hu hp hw hs hf (by rw [he]; nofun)
    exact (hr.paired (n + 1)).unrefused_of_roll (hr.attended (n + 1)) hi hw hs he
  rcases hr.ending n with hsame | hend
  · exact (hf (hsame.trans hp.failure)).elim
  · rcases hend.failure with ⟨_, e, hfault, hfailed⟩ | ⟨_, hdisposed⟩
    · have hbreaks := hend.breaks (hr.attended n) (hr.paired n) (hr.founded n) hfailed
        (HarnessError.ne_disposed_of_fault hfault)
      rw [(hbreaks.registering i u g hu hst hpending).1] at he
      cases he
      cases hfault
    · exact hdisposed

theorem Run.refuses_starting (hw : (s n).waits[i]? = some w) (hs : w.stage = .starting g)
    (he : ((s n).life g).started = .resolved (.error e)) : Refuses s n e := by
  refine hr.wait_induction (i := i) (P := fun n w => w.stage = .starting g →
      ((s n).life g).started = .resolved (.error e) → Refuses s n e)
    (fun n w hcalling _ hs _ => ?_) (fun n u w hu hw _ ih hs he => ?_) hw hs he
  · rw [hcalling] at hs
    cases hs
  · rcases hr.advances hu hw with hsame | ⟨hadvances, _⟩
    · have hst := hsame.symm.trans hs
      have hlt := (hr.founded n).2 i u g hu hst
      cases hstarted : ((s n).life g).started with
      | resolved r =>
        rw [(hr.ages n g).started r hstarted] at he
        cases he
        exact hr.refuses_succ (ih hst hstarted)
      | pending =>
        have hp := hr.poised hlt hstarted
        rcases (hr.unfolds (List.getElem?_eq_getElem hlt) hstarted).answered hp he with
          hopens | hcancelled | ⟨e', hfailed, herror⟩
        · rw [hopens.started] at he
          cases he
        · cases hcancelled
          exact .cancelled (hr.disposed_of_cancelled hu hst hstarted hw hs he)
        · cases herror
          exact .ended e n (Nat.lt_succ_self n) ⟨hfailed, .inl hp.failure⟩
    · -- Whoever has just been listed waits for a consumer that may still start.
      generalize hst : w.stage = stage at hadvances hs
      subst hs
      cases hadvances with
      | starting _ hcalling =>
        have hi := (hr.enlists hu hcalling hw hst).listed
        exact ((hr.paired (n + 1)).unrefused_of_roll (hr.attended (n + 1)) hi hw hst he).elim

theorem Run.refuses (hw : (s n).waits[i]? = some w) (hs : w.stage = .refused e) :
    Refuses s n e := by
  refine hr.wait_induction (i := i) (P := fun n w => w.stage = .refused e → Refuses s n e)
    (fun n w hcalling _ hs => ?_) (fun n u w hu hw _ ih hs => ?_) hw hs
  · rw [hcalling] at hs
    cases hs
  · refine hr.refuses_succ ?_
    rcases hr.advances hu hw with hsame | ⟨hadvances, _⟩
    · exact ih (hsame.symm.trans hs)
    · generalize hst : w.stage = stage at hadvances hs
      subst hs
      cases hadvances with
      | refused _ hwhy =>
        rcases hwhy with ⟨_, hf⟩ | ⟨g, hstarting, herror⟩
        · obtain ⟨m, hm, hends⟩ := hr.ended_with hf
          exact .ended e m hm hends
        · exact hr.refuses_starting hu hstarting herror

theorem Run.attends_starting (hw : (s k).waits[i]? = some w) (hs : w.stage = .starting g)
    (hregisters : (s m).Registers i u (s (m + 1))) (hmn : m < n) (hnk : n ≤ k) :
    (s n).Attends cfg i := by
  obtain ⟨v, hv, hcalled⟩ := (hr.rolls hmn).enrolled i hregisters.enrolled
  refine hr.attends hv hcalled (Bool.eq_false_iff.2 fun hover => ?_)
  obtain ⟨w', hw', habides⟩ := hr.wait_of_le hnk hv
  obtain rfl := Option.some.inj (hw.symm.trans hw')
  rw [← habides.stage hover, hs] at hover
  cases hover

/-- A caller that is told that it has its wait was waiting for a consumer that has started. -/
theorem Run.accepted (ht : .registered ∈ (s n).told i) : ∃ k < n, Accepts cfg s i k := by
  induction n with
  | zero =>
    rw [hr.start] at ht
    cases ht
  | succ n ih =>
    by_cases hold : .registered ∈ (s n).told i
    · obtain ⟨k, hk, haccepts⟩ := ih hold
      exact ⟨k, Nat.lt_succ_of_lt hk, haccepts⟩
    · refine ⟨n, Nat.lt_succ_self n, ?_⟩
      rw [mem_told] at hold ht
      rcases hr.notices_succ n with heq | ⟨j, notice, hs, heq⟩
      · rw [heq] at ht
        exact (hold ht).elim
      · rw [heq, List.mem_append, List.mem_singleton, Prod.mk.injEq] at ht
        obtain ⟨rfl, rfl⟩ := ht.resolve_left hold
        obtain ⟨w, h₁, hw, hv, hend⟩ := visit_stepWait? hs
        have hnew : h₁.notices = (s n).notices ++ [(i, .registered)] := by
          rw [← heq]
          rcases hend with hend | hend
          · rw [hend]
          · rw [hend, notices_disposeIfUnowned]
        obtain ⟨g, hst, hok⟩ := hv.starting_of_registered hnew
        have hnothing : (s n).told i = [] := by
          have htells := (hr.attended n).tells i w hw
          rwa [hst] at htells
        obtain ⟨m, hm, u, v, hu, hregisters, hv, hvs⟩ := hr.enlisted hw hst
        refine ⟨⟨hnothing, ?_⟩, w, g, hw, hst, hr.opened hok, m, hm, u, v, hu, hregisters, hv, hvs,
          fun k hmk hkn => hr.attends_starting hw hst hregisters hmk hkn⟩
        rw [told_append_self heq, hnothing, List.nil_append]

theorem Run.refused_with (hw : (s n).waits[i]? = some w) (hs : w.stage = .refused e) :
    (e = .cancelled → (s n).failure = some .disposed) ∧
      (e ≠ .cancelled → ∃ m < n, (s m).EndsWith e (s (m + 1))) := by
  cases hr.refuses hw hs with
  | cancelled hdisposed => exact ⟨fun _ => hdisposed, fun hne => (hne rfl).elim⟩
  | ended _ m hm hends =>
    refine ⟨fun he => ?_, fun _ => ⟨m, hm, hends⟩⟩
    have hterminal := (hr.attended (m + 1)).terminal e hends.1
    rw [he] at hterminal
    cases hterminal

end

/-- A registration is under way for two timeouts at most, if the clock moves only when every task has
to wait. Then its caller has its wait, was told an error, or has given up. Whoever has its wait was
listed with a consumer whose start the broker has confirmed, and has left the list only with a
delivery, because one was not settled in time, or as the harness ended. The error is `cancelled` only
if the harness was disposed of, and otherwise the one that has ended the harness. Whoever was told an
error or has given up is not listed. -/
theorem registrations_end_in_time (hr : Run cfg (fun _ => True) s) :
    (Punctual cfg s → ∀ (n i : Nat) (w : Wait M), (s n).waits[i]? = some w →
      w.stage.isRegistering = true →
      ∃ k < n, (s k).Calls i (s (k + 1)) ∧ (s n).clock ≤ (s k).clock + 2 * cfg.timeout) ∧
    (∀ (n i : Nat) (w : Wait M), (s n).waits[i]? = some w → w.stage.isRegistering = false →
      .registered ∈ (s n).told i ∨ (∃ e, (s n).told i = [.result (.error e)]) ∨
        w.stage = .dropped) ∧
    (∀ n i, .registered ∈ (s n).told i → ∃ k < n, Accepts cfg s i k) ∧
    (∀ n i o, (s n).told i = [.result o] → i ∉ (s n).roll ∧ ∃ e, o = .error e ∧
      (e = .cancelled → (s n).failure = some .disposed) ∧
      (e ≠ .cancelled → ∃ m < n, (s m).EndsWith e (s (m + 1)))) ∧
    ∀ (n i : Nat) (w : Wait M), (s n).waits[i]? = some w → w.stage = .dropped →
      i ∉ (s n).roll := by
  refine ⟨fun hp n i w hw hs => hr.registering hp hw hs, fun n i w hw hs => ?_,
    fun n i ht => hr.accepted ht, fun n i o ht => ?_, fun n i w hw hs =>
      (hr.attended n).unlisted_of_over hw (by rw [hs]; rfl)⟩
  · have htells := (hr.attended n).tells i w hw
    cases hst : w.stage with
    | calling | starting g =>
      rw [hst] at hs
      cases hs
    | refused e =>
      rw [hst] at htells
      exact .inr (.inl ⟨e, htells⟩)
    | dropped => exact .inr (.inr rfl)
    | registered | awaited | awaiting _ | overdue | ended _ =>
      rw [hst] at htells
      exact .inl (by rw [show (s n).told i = _ from htells]; exact List.mem_cons_self ..)
  · cases hw : (s n).waits[i]? with
    | none =>
      rw [((hr.attended n).nobody i hw).2.2] at ht
      cases ht
    | some w =>
      have htells := (hr.attended n).tells i w hw
      rw [ht] at htells
      rcases htells.of_result (List.mem_singleton.2 rfl) with ⟨e, hs, rfl⟩ | hs
      · exact ⟨(hr.attended n).unlisted_of_over hw (by rw [hs]; rfl), e, rfl,
          hr.refused_with hw hs⟩
      · rw [hs] at htells
        cases htells

/-- The broker holds back the confirmation that the first consumer was cancelled until its timeout,
and then takes too long for the second consumer. -/
def sluggishness : List (Move Unit) :=
  [.act (.call "a message" fun _ => .holds true), .step (.wait 0), .step (.generation 0),
    .step (.wait 0), .act .hold, .act (.giveUp 0), .step (.generation 0),
    .act (.call "another" fun _ => .holds true), .step (.wait 1), .step (.generation 1), .tick,
    .tick, .act .release, .step (.generation 1), .tick, .tick, .step (.generation 1),
    .step (.wait 1)]

/-- The first caller has its wait. The second is told after twice the timeout that its consumer did
not start, which has ended the harness. -/
theorem second_registration_times_out : ∃ s : Nat → Harness Unit, ∃ e : HarnessError,
    Run .sluggish (fun a => a.isForeign = false) s ∧ Punctual .sluggish s ∧
    (∃ k < 4, Accepts .sluggish s 0 k) ∧ 0 ∉ (s 18).roll ∧
    (∃ k < 16, (s k).Calls 1 (s (k + 1)) ∧ (s 16).clock ≤ (s k).clock + 2 * Setup.sluggish.timeout) ∧
    (s 16).clock = 2 * Setup.sluggish.timeout ∧ (s 18).told 1 = [.result (.error e)] ∧
    1 ∉ (s 18).roll ∧ ∃ m < 18, (s m).EndsWith e (s (m + 1)) := by
  have hr : Run .sluggish _ (after .sluggish (initial .sluggish) sluggishness) := run_after rfl
  have hp : Punctual .sluggish (after .sluggish (initial .sluggish) sluggishness) :=
    punctual_after rfl
  obtain ⟨hpending, _, haccepts, hrefused, hdropped⟩ :=
    registrations_end_in_time (hr.mono fun _ _ => trivial)
  obtain ⟨hunlisted, e, he, _, hends⟩ := hrefused 18 1 _ rfl
  cases he
  exact ⟨_, _, hr, hp, haccepts 4 0 (List.mem_singleton.2 rfl), hdropped 18 0 _ rfl rfl,
    hpending hp 16 1 _ rfl rfl, rfl, rfl, hunlisted, hends nofun⟩

end Harness
end Intercept
