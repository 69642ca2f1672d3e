import Intercept.Proofs.Harness.Unclaimed

/-! A harness comes to its end in one move: it fails, or it is disposed of. Nobody is left waiting, and
whoever comes later is turned away. -/
namespace Intercept.Harness
variable {M : Type} {cfg : Setup M} {h h' h₁ : Harness M} {e : HarnessError} {g i j k : Nat}
  {w : Wait M} {o : Outcome M}

/-- Whoever waits for a generation waits for one that exists. -/
def Founded (h : Harness M) : Prop :=
  (∀ k, (h.life k).Frank) ∧
    ∀ (i : Nat) (w : Wait M) (g : Nat), h.waits[i]? = some w → w.stage = .starting g →
      g < h.generations.length

/-- The harness fails. Whoever is listed fails with the same error, unless it just failed as the
deadline of a delivery that nobody took has passed, and so does each registration whose generation
has not started. One whose generation has started keeps that answer. -/
structure Breaks (cfg : Setup M) (h : Harness M) (e : HarnessError) (h' : Harness M) : Prop where
  listed : ∀ i ∈ h.roll, ∃ w e', h.waits[i]? = some w ∧ w.outcome = .pending ∧
    h'.waits[i]? = some { w with outcome := .resolved (.error e') } ∧
    (e' = e ∨ (∃ g t, h.Lapses g t) ∧ e'.reason? = some .unackedMessage)
  registering : ∀ (i : Nat) (w : Wait M) (g : Nat), h.waits[i]? = some w → w.stage = .starting g →
    (h.life g).started = .pending → (h'.life g).started = .resolved (.error e) ∧
      ∃ w', h'.waits[i]? = some w' ∧ w'.stage = .starting g
  admitted : ∀ (i : Nat) (w : Wait M) (g : Nat), h.waits[i]? = some w → w.stage = .starting g →
    (h.life g).started = .resolved (.ok ()) → (h'.life g).started = .resolved (.ok ()) ∧
      ∃ w', h'.waits[i]? = some w' ∧ w'.stage = .starting g
  errored : ∀ g, h.current = some g → (h'.life g).state = .errored
  current : h'.current = none
  waiters : h'.waiters = []
  count : h'.generations.length = h.generations.length
  released : h'.broker.disposed = true

/-- The harness is disposed of. Whoever is listed is cancelled, and so is each registration whose
generation has not started. One whose generation has started keeps that answer. -/
structure Disposes (h h' : Harness M) : Prop where
  listed : ∀ i ∈ h.roll, ∃ w, h.waits[i]? = some w ∧ w.outcome = .pending ∧
    h'.waits[i]? = some { w with outcome := .resolved (.error .cancelled) }
  registering : ∀ (i : Nat) (w : Wait M) (g : Nat), h.waits[i]? = some w → w.stage = .starting g →
    (h.life g).started = .pending → (h'.life g).started = .resolved (.error .cancelled) ∧
      ∃ w', h'.waits[i]? = some w' ∧ w'.stage = .starting g
  admitted : ∀ (i : Nat) (w : Wait M) (g : Nat), h.waits[i]? = some w → w.stage = .starting g →
    (h.life g).started = .resolved (.ok ()) → (h'.life g).started = .resolved (.ok ()) ∧
      ∃ w', h'.waits[i]? = some w' ∧ w'.stage = .starting g
  stopped : ∀ g, h.current = some g → (h'.life g).stopRequested = true
  failure : h'.failure = some .disposed
  waiters : h'.waiters = []
  count : h'.generations.length = h.generations.length
  released : h'.broker.disposed = true

/-- A registration ends as its caller is told so, and nothing else happens. -/
structure Concludes (h : Harness M) (i : Nat) (stage : WaitStage M) (notice : Notice M)
    (h' : Harness M) : Prop where
  wait : ∃ w, h.waits[i]? = some w ∧ h'.waits[i]? = some { w with stage }
  told : h'.told i = h.told i ++ [notice]
  waiters : h'.waiters = []
  count : h'.generations.length = h.generations.length
  operations : h'.broker.operations = h.broker.operations

/-- A registration is turned away. -/
def TurnsAway (h : Harness M) (i : Nat) (e : HarnessError) (h' : Harness M) : Prop :=
  h.Concludes i (.refused e) (.result (.error e)) h'

/-- A registration succeeds. -/
def LetsIn (h : Harness M) (i : Nat) (h' : Harness M) : Prop :=
  h.Concludes i .registered .registered h'

/-- A generation about which nobody was told anything yet is the current one. -/
theorem Paired.current_of_pending (hp : h.Paired) (hfrank : (h.life g).Frank)
    (hlt : g < h.generations.length) (hpending : (h.life g).started = .pending) :
    h.current = some g ∧ (h.life g).state = .initial := by
  have hinitial := hfrank.unanswered hpending
  have hlife := lives_of_lt (h := h) (g := g) (by rwa [lives, List.length_map])
  exact ⟨hp.current_observes g _ hlife (by rw [hinitial]; rfl), hinitial⟩

/-- How a harness comes to its end in a move. -/
inductive Ending (cfg : Setup M) (h h' : Harness M) : Prop
  | failed (e : HarnessError) : h.Falls e h' → Ending cfg h h'
  /-- It fails as the deadline of a generation has passed. -/
  | lapsed (g t : Nat) (e : HarnessError) : h.Lapses g t → (h.expireAll cfg g).Falls e h' →
    Ending cfg h h'
  /-- It fails as a claim is answered for. -/
  | answered (x : Claim M) (o : Outcome M) (e : HarnessError) (h₁ : Harness M) : x ∈ h.claims →
    h.Falls e h₁ → (h₁.complete x.wait o).Calm h' → Ending cfg h h'
  | disposed : h.failure ≠ some .disposed → h' = h.dispose → Ending cfg h h'
  /-- Its owner has dropped it, and nobody is registering any more. -/
  | dropped (h₁ : Harness M) : h.failure ≠ some .disposed → h₁.failure = h.failure →
    h₁.waits.any (·.stage.isRegistering) = false → h'.dropped = true → h' = h₁.dispose →
    Ending cfg h h'

theorem ending_disposeIfUnowned (hf : h₁.failure = h.failure) :
    h₁.disposeIfUnowned.failure = h.failure ∨ h.Ending cfg h₁.disposeIfUnowned := by
  by_cases hd : h.failure = some .disposed
  · rcases disposeIfUnowned_cases h₁ with heq | heq
    · exact .inl (by rw [heq, hf])
    · exact .inl (by rw [heq, failure_dispose, hd])
  · have hd₁ : h₁.failure ≠ some .disposed := hf ▸ hd
    rw [disposeIfUnowned]
    split
    · next hunowned =>
      rw [Bool.and_eq_true] at hunowned
      have hdropped : h₁.dispose.dropped = h₁.dropped := congrArg (·.2.2.2.2.2) (dispose_view hd₁)
      have hnobody : h₁.waits.any (·.stage.isRegistering) = false := by simpa using hunowned.2
      exact .inr (.dropped h₁ hd hf hnobody (hdropped.trans hunowned.1) rfl)
    · exact .inl hf

/-- The failure of a harness stays the same, unless it comes to an end. -/
theorem Happening.ending (hh : h.Happening cfg h')
    (hlt : ∀ g, h.current = some g → g < h.generations.length) :
    h'.failure = h.failure ∨ h.Ending cfg h' := by
  cases hh with
  | ticked | called _ _ _ => exact .inl rfl
  | busy hb =>
    rcases hb.cases hlt with hc | ⟨e, hf⟩
    · exact .inl hc.failure
    · exact .inr (.failed e hf)
  | proceeded g stage hp =>
    rcases hp.cases hlt with ⟨hq, _⟩ | ⟨e, hf⟩
    · exact .inl hq.failure
    · exact .inr (.failed e hf)
  | attached g x _ _ ha => exact .inl (congrArg (·.2.2.2.2.1) ha.older.2.1)
  | handed g d rest x deadline h₁ _ _ hd =>
    have hsame : h₁.failure = h.failure := by cases hd <;> rfl
    left
    split <;> exact hsame
  | expired g t hl =>
    rcases (proceeds_leave (h := h.expireAll cfg g)).cases (current_lt_expireAll hlt) with
      ⟨hq, _⟩ | ⟨e, hf⟩
    · exact .inl (hq.failure.trans failure_expireAll)
    · exact .inr (.lapsed g t e hl hf)
  | answered x o hx _ ha =>
    cases ha with
    | mk h₁ hb hc _ =>
      have hsame : h'.failure = h₁.failure := hc.failure
      rcases hb.cases hlt with hc' | ⟨e, hf⟩
      · exact .inl (hsame.trans hc'.failure)
      · exact .inr (.answered x o e h₁ hx hf hc)
  | visited j u h₁ _ hv hend =>
    rcases hend with rfl | rfl
    · exact .inl hv.visited.failure
    · exact ending_disposeIfUnowned hv.visited.failure
  | disposed =>
    by_cases hf : h.failure = some .disposed
    · exact .inl (by rw [dispose_of_disposed hf])
    · exact .inr (.disposed hf rfl)
  | dropped => exact ending_disposeIfUnowned (h := h) rfl

theorem Ending.failure (hend : h.Ending cfg h') :
    h.failure = none ∧ (∃ e, e.isFault = true ∧ h'.failure = some e) ∨
      h.failure ≠ some .disposed ∧ h'.failure = some .disposed := by
  cases hend with
  | failed e hf => exact .inl ⟨hf.unfailed, e, hf.fault, hf.failure⟩
  | lapsed g t e _ hf =>
    exact .inl ⟨failure_expireAll.symm.trans hf.unfailed, e, hf.fault, hf.failure⟩
  | answered x o e h₁ _ hf hc =>
    have hsame : h'.failure = h₁.failure := hc.failure
    exact .inl ⟨hf.unfailed, e, hf.fault, hsame.trans hf.failure⟩
  | disposed hf heq => exact .inr ⟨hf, heq ▸ failure_dispose⟩
  | dropped h₁ hf _ _ _ heq => exact .inr ⟨hf, heq ▸ failure_dispose⟩

theorem Falls.undisposed (hf : h.Falls e h') : h'.failure ≠ some .disposed := by
  rw [hf.failure]
  exact fun hd => HarnessError.ne_disposed_of_fault hf.fault (Option.some.inj hd)

theorem Ending.disposal (hend : h.Ending cfg h') (hd : h'.failure = some .disposed) :
    h' = h.dispose ∨ h'.dropped = true := by
  cases hend with
  | failed e hf => exact (hf.undisposed hd).elim
  | lapsed g t e _ hf => exact (hf.undisposed hd).elim
  | answered x o e h₁ _ hf hc => exact (hf.undisposed (hc.failure.symm.trans hd)).elim
  | disposed _ heq => exact .inl heq
  | dropped h₁ _ _ _ hdropped _ => exact .inr hdropped

theorem Ending.released (hend : h.Ending cfg h') : h'.broker.disposed = true := by
  have hdisposed : ∀ {h₁ : Harness M}, h₁.failure ≠ some .disposed → h' = h₁.dispose →
      h'.broker.disposed = true := by
    rintro h₁ hf rfl
    rw [dispose_eq hf]
    exact Broker.disposed_dispose
  cases hend with
  | failed e hf => exact hf.released
  | lapsed g t e _ hf => exact hf.released
  | answered x o e h₁ _ hf hc => exact (hc.broker.released hf.released).1
  | disposed hf heq => exact hdisposed hf heq
  | dropped h₁ hf hsame _ _ heq => exact hdisposed (hsame ▸ hf) heq

theorem Falls.breaks (hf : h.Falls e h') (ha : h.Attended cfg) (hp : h.Paired)
    (hfound : h.Founded) : h.Breaks cfg e h' where
  listed := fun i hi => by
    obtain ⟨w, _, hw, hpending, _⟩ := ha.wait_of_roll hi
    obtain ⟨v, _, _, hresolved⟩ := resolveAll_of_roll (fun _ => e) hw hi hpending
    exact ⟨w, e, hw, hpending, hf.waits ▸ hresolved, .inl rfl⟩
  registering := fun i w g hw hs hpending => by
    obtain ⟨hc, _⟩ := hp.current_of_pending (hfound.1 g) (hfound.2 i w g hw hs) hpending
    obtain ⟨w', hw', _, hstage, _⟩ := hf.wait hw
    exact ⟨hf.answered g hc (hfound.1 g) hpending, w', hw', hstage.trans hs⟩
  admitted := fun i w g hw hs hok => by
    obtain ⟨w', hw', _, hstage, _⟩ := hf.wait hw
    exact ⟨(hf.lives g).started _ hok, w', hw', hstage.trans hs⟩
  errored := hf.errored
  current := hf.current
  waiters := hf.waiters
  count := hf.count
  released := hf.released

/-- Whoever waits for a generation still does after somebody was completed. -/
theorem Calm.starting_complete (hc : (h₁.complete j o).Calm h') (hw : h₁.waits[i]? = some w)
    (hs : w.stage = .starting g) : ∃ w', h'.waits[i]? = some w' ∧ w'.stage = .starting g := by
  rw [hc.waits, complete, changeWait, List.getElem?_modify, hw]
  by_cases hj : j = i
  · exact ⟨{ w with outcome := w.outcome.resolve o }, by simp [hj], hs⟩
  · exact ⟨w, by simp [hj], hs⟩

/-- A waiter that is not listed is completed afterwards. -/
theorem Breaks.completed (hb : h.Breaks cfg e h₁) (hc : (h₁.complete j o).Calm h')
    (hfree : j ∉ h.roll) : h.Breaks cfg e h' where
  listed := fun i hi => by
    obtain ⟨w, e', hw, hpending, hw', he⟩ := hb.listed i hi
    have hne : j ≠ i := fun heq => hfree (heq ▸ hi)
    refine ⟨w, e', hw, hpending, ?_, he⟩
    rw [hc.waits, complete, changeWait, List.getElem?_modify_ne _ _ hne, hw']
  registering := fun i w g hw hs hpending => by
    obtain ⟨hstarted, w', hw', hs'⟩ := hb.registering i w g hw hs hpending
    exact ⟨(hc.lives g).started _ hstarted, hc.starting_complete hw' hs'⟩
  admitted := fun i w g hw hs hok => by
    obtain ⟨hstarted, w', hw', hs'⟩ := hb.admitted i w g hw hs hok
    exact ⟨(hc.lives g).started _ hstarted, hc.starting_complete hw' hs'⟩
  errored := fun g hg => (hc.lives g).errored (hb.errored g hg)
  current := hc.current.trans hb.current
  waiters := hc.waiters.trans hb.waiters
  count := hc.count.trans hb.count
  released := (hc.broker.released hb.released).1

theorem Lapses.breaks {t : Nat} (hl : h.Lapses g t) (ha : h.Attended cfg) (hp : h.Paired)
    (hfound : h.Founded) (hf : (h.expireAll cfg g).Falls e h') : h.Breaks cfg e h' where
  listed := fun i hi => by
    obtain ⟨w, _, hw, hpending, _⟩ := ha.wait_of_roll hi
    obtain ⟨v, _, _, hresolved⟩ := resolveAll_of_roll cfg.unacked hw hi hpending
    refine ⟨w, cfg.unacked v, hw, hpending, ?_, .inr ⟨⟨g, t, hl⟩, ?_⟩⟩
    · rw [hf.waits, expireAll_cleared]
      exact hresolved
    · rw [Setup.unacked, HarnessError.reason?, Waiter.timeoutError_report?]
      rfl
  registering := fun i w k hw hs hpending => by
    -- Whoever has a deadline has started, and nobody else may still start.
    obtain ⟨hc, hinitial⟩ := hp.current_of_pending (hfound.1 k) (hfound.2 i w k hw hs) hpending
    have hcurrent := (hp.current_of_watches hl.routing).1
    rw [hc] at hcurrent
    obtain rfl := Option.some.inj hcurrent
    obtain ⟨x, hx, hst, _⟩ := hl.routing
    rw [life_of_some (lives_of_some hx)] at hinitial
    exact (ha.opened k x _ hx hst hinitial).elim
  admitted := fun i w k hw hs hok => by
    obtain ⟨w₁, hw₁, hstage₁⟩ : ∃ w₁, (h.expireAll cfg g).waits[i]? = some w₁ ∧
        w₁.stage = w.stage := by
      obtain ⟨w₁, hw₁, hsame⟩ := resolveAll_wait h.waiters cfg.unacked hw
      rw [expireAll_cleared]
      refine ⟨w₁, hw₁, ?_⟩
      rcases hsame with ⟨_, rfl⟩ | ⟨_, _, _, rfl⟩ <;> rfl
    obtain ⟨w', hw', _, hstage, _⟩ := hf.wait hw₁
    exact ⟨(hf.lives k).started _ ((older_expireAll.lives k).started _ hok), w', hw',
      (hstage.trans hstage₁).trans hs⟩
  errored := fun k hk => hf.errored k (by rw [expireAll_cleared]; exact hk)
  current := hf.current
  waiters := hf.waiters
  count := hf.count.trans (by rw [expireAll_cleared]; exact length_changeGeneration)
  released := hf.released

theorem Ending.breaks (hend : h.Ending cfg h') (ha : h.Attended cfg) (hp : h.Paired)
    (hfound : h.Founded) (he : h'.failure = some e) (hne : e ≠ .disposed) : h.Breaks cfg e h' := by
  have hfalls : ∀ {h₀ h₁ : Harness M} {e' : HarnessError}, h'.failure = h₁.failure →
      h₀.Falls e' h₁ → e' = e := by
    intro h₀ h₁ e' heq hfalls
    rw [he, hfalls.failure] at heq
    exact (Option.some.inj heq).symm
  have hdisposed : ∀ {h₁ : Harness M}, h' ≠ h₁.dispose := by
    rintro h₁ rfl
    rw [failure_dispose] at he
    exact hne (Option.some.inj he).symm
  cases hend with
  | failed e' hf =>
    obtain rfl := hfalls rfl hf
    exact hf.breaks ha hp hfound
  | lapsed g t e' hl hf =>
    obtain rfl := hfalls rfl hf
    exact hl.breaks ha hp hfound hf
  | answered x o e' h₁ hx hf hc =>
    obtain rfl := hfalls (show h'.failure = h₁.failure from hc.failure) hf
    refine (hf.breaks ha hp hfound).completed hc fun hi => ?_
    obtain ⟨_, _, _, _, hfree, _⟩ := ha.wait_of_roll hi
    have hmem : x ∈ h.claimsOf x.wait := List.mem_filter.2 ⟨hx, beq_self_eq_true _⟩
    rw [hfree] at hmem
    cases hmem
  | disposed _ heq => exact (hdisposed heq).elim
  | dropped _ _ _ _ _ heq => exact (hdisposed heq).elim

theorem disposes_dispose (ha : h.Attended cfg) (hp : h.Paired) (hp' : h.dispose.Paired)
    (hfound : h.Founded) (hf : h.failure ≠ some .disposed) : h.Disposes h.dispose where
  listed := fun i hi => by
    obtain ⟨w, _, hw, hpending, _⟩ := ha.wait_of_roll hi
    obtain ⟨v, _, _, hresolved⟩ := resolveAll_of_roll (fun _ => .cancelled) hw hi hpending
    refine ⟨w, hw, hpending, ?_⟩
    rw [dispose_eq hf]
    exact hresolved
  registering := fun i w g hw hs hpending => by
    obtain ⟨hc, _⟩ := hp.current_of_pending (hfound.1 g) (hfound.2 i w g hw hs) hpending
    obtain ⟨w', hw', _, hstage, _⟩ := dispose_wait hw
    refine ⟨?_, w', hw', hstage.trans hs⟩
    have hlife := life_changeCurrent (f := (·.stop)) hc (hfound.2 i w g hw hs)
    rw [dispose_eq hf]
    change ((h.changeCurrent (·.stop)).life g).started = _
    rw [hlife]
    exact Lifecycle.stop_answers (hfound.1 g) hpending
  admitted := fun i w g hw hs hok => by
    obtain ⟨w', hw', _, hstage, _⟩ := dispose_wait hw
    exact ⟨(older_dispose.lives g).started _ hok, w', hw', hstage.trans hs⟩
  stopped := fun g hc => by
    have hlt : g < h.dispose.generations.length :=
      Nat.lt_of_lt_of_le (hp.exists_current g hc) older_dispose.length
    have hx := List.getElem?_eq_getElem hlt
    rw [life_of_some (lives_of_some hx)]
    by_contra hgoing
    have hunfailed := (hp'.unfailed_of_routing hx hgoing).1
    rw [failure_dispose] at hunfailed
    cases hunfailed
  failure := failure_dispose
  waiters := (hp'.nobody_of_failure (by simp [failure_dispose])).2
  count := by
    rw [dispose_eq hf]
    exact length_changeCurrent
  released := by
    rw [dispose_eq hf]
    exact Broker.disposed_dispose

/-! After the end. -/

theorem length_disposeIfUnowned :
    h.disposeIfUnowned.generations.length = h.generations.length := by
  rcases disposeIfUnowned_cases h with heq | heq
  · rw [heq]
  · rw [heq, length_dispose]

theorem length_deregister : (h.deregister i).generations.length = h.generations.length := by
  rcases deregister_cases h i with heq | ⟨g, heq⟩
  · rw [heq]
    rfl
  · rw [heq]
    exact length_changeGeneration

theorem length_expire : (h.expire cfg i).generations.length = h.generations.length := by
  rw [expire]
  split
  · rfl
  · rcases stopIfIdle_cases (h.unlist i) with heq | ⟨g, heq⟩
    · rw [← unlist, heq]
      rfl
    · rw [← unlist, heq]
      exact length_changeGeneration

/-- No generation is created after the end. -/
theorem Visit.count (hv : h.Visit cfg i w h₁) (hf : h.failure ≠ none) :
    h₁.generations.length = h.generations.length := by
  cases hv with
  | turnedAway _ _ _ | accepted _ _ _ | awaited _ | armed _ | finished _ _ _ => rfl
  | joined _ _ hnone _ | created _ hnone _ => exact (hf hnone).elim
  | refused _ _ _ _ | left _ => exact length_deregister
  | expired _ _ _ _ => exact length_expire

theorem Happening.count (hh : h.Happening cfg h') (hp : h.Paired) (hf : h.failure ≠ none) :
    h'.generations.length = h.generations.length := by
  have hlt := hp.exists_current
  cases hh with
  | ticked | called _ _ _ => rfl
  | busy hb =>
    rcases hb.cases hlt with hc | ⟨e, he⟩
    · exact hc.count
    · exact (hf he.unfailed).elim
  | proceeded g stage hpro =>
    rcases hpro.cases hlt with ⟨hq, _⟩ | ⟨e, he⟩
    · exact hq.count
    · exact (hf he.unfailed).elim
  | attached g x _ _ hatt => exact hatt.older.2.2.1
  | handed g d rest x deadline h₁ hserves _ _ =>
    exact (hf (hp.unfailed_of_routing hserves.found hserves.going).1).elim
  | expired g t hl => exact (hf (hp.current_of_watches hl.routing).2.1).elim
  | answered x outcome hx _ hans =>
    cases hans with
    | mk h₁ hb hc _ =>
      rcases hb.cases hlt with hc' | ⟨e, he⟩
      · exact hc.count.trans hc'.count
      · exact (hf he.unfailed).elim
  | visited j u h₁ hu hv hend =>
    rcases hend with rfl | rfl
    · exact hv.count hf
    · exact length_disposeIfUnowned.trans (hv.count hf)
  | disposed => exact length_dispose
  | dropped => exact length_disposeIfUnowned

/-- Disposing of a harness that has come to its end does not concern anybody. -/
theorem dispose_after_end (hv : h.waiters = []) (hd : h.broker.disposed = true) :
    h.dispose.waits = h.waits ∧ h.dispose.waiters = [] ∧ h.dispose.broker = h.broker := by
  by_cases hf : h.failure = some .disposed
  · rw [dispose_of_disposed hf]
    exact ⟨rfl, hv, rfl⟩
  · rw [dispose_eq hf, hv, Broker.dispose, if_pos hd]
    exact ⟨rfl, rfl, rfl⟩

/-- After the end nobody is affected as a caller learns how its registration has ended. -/
theorem concludes_after_end {stage : WaitStage M} {notice : Notice M} (hw : h.waits[i]? = some w)
    (hv : h.waiters = []) (hd : h.broker.disposed = true) :
    h.Concludes i stage notice ((h.enterWait i stage).tell i notice).disposeIfUnowned := by
  let h₁ : Harness M := (h.enterWait i stage).tell i notice
  have hw₁ : h₁.waits[i]? = some { w with stage } := waits_enterWait_self hw
  have htold : h₁.told i = h.told i ++ [notice] := told_append_self rfl
  have htold' : h₁.disposeIfUnowned.told i = h₁.told i := by
    rw [told, told, notices_disposeIfUnowned]
  have hsame : h₁.disposeIfUnowned.waits = h₁.waits ∧ h₁.disposeIfUnowned.waiters = [] ∧
      h₁.disposeIfUnowned.broker = h₁.broker := by
    rcases disposeIfUnowned_cases h₁ with heq | heq
    · rw [heq]
      exact ⟨rfl, hv, rfl⟩
    · rw [heq]
      exact dispose_after_end hv hd
  obtain ⟨hwaits, hwaiters, hbroker⟩ := hsame
  refine ⟨⟨w, hw, ?_⟩, htold'.trans htold, hwaiters, length_disposeIfUnowned, ?_⟩
  · exact (congrArg (·[i]?) hwaits).trans hw₁
  · exact congrArg (·.operations) hbroker

end Intercept.Harness
