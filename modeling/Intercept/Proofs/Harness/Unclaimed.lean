import Intercept.Proofs.Harness.Clock

/-! A delivery that nobody takes sets the deadline of its generation, unless it is set already, and the
next claim disarms it. -/
namespace Intercept.Harness
variable {M : Type} {cfg : Setup M} {allowed : Act M → Prop} {h h' h₁ : Harness M}
  {s : Nat → Harness M} {e : HarnessError} {g i j k k' m n t : Nat} {w w' : Wait M}
  {deadline : Option Nat} {taker taker' : Option Nat}

/-! Which deliveries nobody took. -/

/-- In a move a generation hands out a delivery, to a wait or to nobody. -/
def Routes (s : Nat → Harness M) (k g : Nat) (taker : Option Nat) : Prop :=
  (s k).current = some g ∧ ∃ d, routing (s k) (s (k + 1)) = some (d, taker)

/-- Before a move, the first delivery that the generation handed out and that nobody took, since one
was claimed or since it started. -/
structure FirstUnclaimed (s : Nat → Harness M) (g n k : Nat) : Prop where
  before : k < n
  unclaimed : Routes s k g none
  since : ∀ j, k < j → j < n → ∀ i, ¬ Routes s j g (some i)
  first : ∀ j < k, Routes s j g none → ∃ l, j < l ∧ l < k ∧ ∃ i, Routes s l g (some i)

theorem Routes.unique (hr : Routes s k g taker) (hr' : Routes s k g taker') : taker = taker' := by
  obtain ⟨_, d, hd⟩ := hr
  obtain ⟨_, d', hd'⟩ := hr'
  rw [hd] at hd'
  cases hd'
  rfl

/-- If nobody took a delivery, and no other was claimed since, there is a first one. -/
theorem exists_firstUnclaimed (hj : j < n) (hu : Routes s j g none)
    (hs : ∀ l, j < l → l < n → ∀ i, ¬ Routes s l g (some i)) : ∃ k, FirstUnclaimed s g n k := by
  classical
  have hex : ∃ k, k < n ∧ Routes s k g none ∧ ∀ l, k < l → l < n → ∀ i, ¬ Routes s l g (some i) :=
    ⟨j, hj, hu, hs⟩
  obtain ⟨hk, hunclaimed, hsince⟩ := Nat.find_spec hex
  refine ⟨Nat.find hex, hk, hunclaimed, hsince, fun j hj hu => ?_⟩
  have hmin := Nat.find_min hex hj
  push Not at hmin
  obtain ⟨l, hjl, hln, i, hl⟩ := hmin (by omega) hu
  refine ⟨l, hjl, ?_, i, hl⟩
  rcases Nat.lt_trichotomy l (Nat.find hex) with hlt | heq | hgt
  · exact hlt
  · rw [heq] at hl
    cases hunclaimed.unique hl
  · exact (hsince l hgt hln i hl).elim

/-! What one more move means for the first delivery that nobody took. -/

theorem firstUnclaimed_of_idle (hidle : ∀ taker, ¬ Routes s n g taker) :
    FirstUnclaimed s g (n + 1) k ↔ FirstUnclaimed s g n k := by
  constructor
  · intro hk
    have hne : k ≠ n := by
      rintro rfl
      exact hidle _ hk.unclaimed
    exact ⟨by have := hk.before; omega, hk.unclaimed, fun j hj hjn => hk.since j hj (by omega), hk.first⟩
  · intro hk
    refine ⟨Nat.lt_succ_of_lt hk.before, hk.unclaimed, fun j hj hjn i hi => ?_, hk.first⟩
    rcases Nat.lt_or_eq_of_le (Nat.le_of_lt_succ hjn) with hlt | rfl
    · exact hk.since j hj hlt i hi
    · exact hidle _ hi

theorem not_firstUnclaimed_of_claimed (hc : Routes s n g (some i)) :
    ¬ FirstUnclaimed s g (n + 1) k := by
  intro hk
  rcases Nat.lt_or_eq_of_le (Nat.le_of_lt_succ hk.before) with hlt | rfl
  · exact hk.since n hlt (Nat.lt_succ_self n) i hc
  · cases hk.unclaimed.unique hc

theorem firstUnclaimed_of_unclaimed (hu : Routes s n g none) : FirstUnclaimed s g (n + 1) k ↔
    FirstUnclaimed s g n k ∨ k = n ∧ ∀ k', ¬ FirstUnclaimed s g n k' := by
  constructor
  · intro hk
    rcases Nat.lt_or_eq_of_le (Nat.le_of_lt_succ hk.before) with hlt | rfl
    · exact .inl ⟨hlt, hk.unclaimed, fun j hj hjn => hk.since j hj (by omega), hk.first⟩
    · refine .inr ⟨rfl, fun k' hk' => ?_⟩
      obtain ⟨l, hkl, hlk, i, hl⟩ := hk.first k' hk'.before hk'.unclaimed
      exact hk'.since l hkl hlk i hl
  · rintro (hk | ⟨rfl, hnone⟩)
    · refine ⟨Nat.lt_succ_of_lt hk.before, hk.unclaimed, fun j hj hjn i hi => ?_, hk.first⟩
      rcases Nat.lt_or_eq_of_le (Nat.le_of_lt_succ hjn) with hlt | rfl
      · exact hk.since j hj hlt i hi
      · cases hu.unique hi
    · refine ⟨Nat.lt_succ_self k, hu, fun j hj hjk => by omega, fun j hj hju => ?_⟩
      by_contra hno
      push Not at hno
      obtain ⟨k', hk'⟩ := exists_firstUnclaimed hj hju fun l hjl hlk i => hno l hjl hlk i
      exact hnone k' hk'

/-! The deadline of a generation that routes deliveries. -/

theorem Watches.stage (hw : h.Watches g deadline) :
    h.generations[g]?.map (·.stage) = some (.routing deadline) := by
  obtain ⟨x, hx, hs, _⟩ := hw
  rw [hx, Option.map_some, hs]

theorem Paired.current_of_watches (hp : h.Paired) (hw : h.Watches g deadline) :
    h.current = some g ∧ h.failure = none ∧ h.waiters ≠ [] := by
  obtain ⟨x, hx, _, hgoing⟩ := hw
  obtain ⟨hunfailed, hobs⟩ := hp.unfailed_of_routing hx hgoing
  have hmem := List.mem_of_getElem? (lives_of_some hx)
  exact ⟨hp.current_of_routing hx hgoing, hunfailed, (hp.awaited _ hmem hobs).2⟩

/-- Whoever has not got to another stage routed deliveries before. -/
theorem Older.watches (ho : h.Older h')
    (hs : h'.generations[g]?.map (·.stage) = h.generations[g]?.map (·.stage))
    (hw : h'.Watches g deadline) : h.Watches g deadline := by
  have hstage := hs.symm.trans hw.stage
  obtain ⟨x', hx', _, hgoing⟩ := hw
  obtain ⟨x, hx, hst⟩ := Option.map_eq_some_iff.1 hstage
  refine ⟨x, hx, hst, fun hstop => hgoing ?_⟩
  have hages := ho.lives g
  rw [life_of_some (lives_of_some hx), life_of_some (lives_of_some hx')] at hages
  exact hages.stopped hstop

theorem stage_deregister : (h.deregister i).generations[k]?.map (·.stage) =
    h.generations[k]?.map (·.stage) := by
  rcases deregister_cases h i with heq | ⟨g, heq⟩
  · rw [heq]
    rfl
  · rw [heq]
    exact stage_changeLife

theorem stage_expire : (h.expire cfg i).generations[k]?.map (·.stage) =
    h.generations[k]?.map (·.stage) := by
  rw [expire]
  split
  · rfl
  · rcases stopIfIdle_cases (h.unlist i) with heq | ⟨g, heq⟩
    · rw [← unlist, heq]
      rfl
    · rw [← unlist, heq]
      exact stage_changeLife

theorem Visit.watches (hv : h.Visit cfg i w h₁) (hw : h₁.Watches g deadline) :
    h.Watches g deadline := by
  have ho := hv.visited.toOlder
  cases hv with
  | turnedAway _ _ _ | joined _ _ _ _ | accepted _ _ _ | awaited _ | armed _ | finished _ _ _ =>
    exact hw
  | refused _ _ _ _ | left _ => exact ho.watches stage_deregister hw
  | expired _ _ _ _ => exact ho.watches stage_expire hw
  | created _ _ _ =>
    obtain ⟨x, hx, hs, hgoing⟩ := hw
    have hx' : (h.generations ++ [({ stage := .created h.current } : Generation)])[g]? = some x := hx
    rw [List.getElem?_append] at hx'
    split at hx'
    · exact ⟨x, hx', hs, hgoing⟩
    · obtain rfl := List.mem_singleton.1 (List.mem_of_getElem? hx')
      cases hs

/-- A generation that goes on to another stage does not route deliveries, and the others stay. -/
theorem Proceeds.watches {stage : Stage} (hpro : h.Proceeds k stage h')
    (hlt : ∀ g, h.current = some g → g < h.generations.length) (hf : h'.failure = none)
    (hw : h'.Watches g deadline) : h.Older h' ∧
      h'.generations[g]?.map (·.stage) = h.generations[g]?.map (·.stage) := by
  rcases hpro.cases hlt with ⟨hq, hstage, hothers, hself⟩ | ⟨e, he⟩
  · by_cases hk : g = k
    · subst hk
      exact (hstage _ (hself _ hw.stage).symm).elim
    · exact ⟨hq.toOlder, hothers g hk⟩
  · rw [he.failure] at hf
    cases hf

/-- Whoever routes deliveries after a move did so before, with the same deadline if it hands out
nothing, or has just started. -/
theorem Happening.watches (hh : h.Happening cfg h') (hp : h.Paired) (hp' : h'.Paired)
    (hw : h'.Watches g deadline) :
    h.Older h' ∧ (h.Watches g deadline ∨
      deadline = none ∧ ∃ x, h.generations[g]? = some x ∧ x.stage.isOpening = true) ∨
    ∃ d rest x deadline₀, h.Serves g d rest x ∧ x.stage = .routing deadline₀ ∧
      h.Dispatched cfg g deadline₀ d rest h' := by
  have hlt := hp.exists_current
  obtain ⟨hcurrent, hunfailed, hlisted⟩ := hp'.current_of_watches hw
  have hkept : h.Older h' → h'.generations[g]?.map (·.stage) = h.generations[g]?.map (·.stage) →
      h.Older h' ∧ (h.Watches g deadline ∨
        deadline = none ∧ ∃ x, h.generations[g]? = some x ∧ x.stage.isOpening = true) :=
    fun ho hs => ⟨ho, .inl (ho.watches hs hw)⟩
  -- Nobody routes deliveries after a failure, or once the harness is disposed of.
  have hfalls : ∀ {h₀ h₁ : Harness M} {e : HarnessError}, h'.failure = h₁.failure →
      ¬ h₀.Falls e h₁ := by
    intro h₀ h₁ e heq hf
    rw [hf.failure, hunfailed] at heq
    cases heq
  have hundisposed : ∀ {h₁ : Harness M}, h' ≠ h₁.dispose := by
    rintro h₁ rfl
    rw [failure_dispose] at hunfailed
    cases hunfailed
  cases hh with
  | ticked | called _ _ _ => exact .inl (hkept (.same rfl .refl) rfl)
  | busy hb =>
    rcases hb.cases hlt with hc | ⟨e, hf⟩
    · exact .inl (hkept hc.toOlder (hc.stages g))
    · exact (hfalls rfl hf).elim
  | proceeded k stage hpro =>
    obtain ⟨ho, hs⟩ := hpro.watches hlt hunfailed hw
    exact .inl (hkept ho hs)
  | attached k x hx hopening hatt =>
    obtain ⟨ho, _, _, hothers, hself⟩ := hatt.older
    by_cases hk : g = k
    · subst hk
      exact .inl ⟨ho, .inr ⟨hself _ hw.stage, x, hx, hopening⟩⟩
    · exact .inl (hkept ho (hothers g hk))
  | handed k d rest x deadline₀ h₁ hserves hst hd =>
    have hempty : ¬ h₁.waiters.isEmpty = true := by
      intro hempty
      rw [if_pos hempty] at hlisted
      exact hlisted (List.isEmpty_iff.1 hempty)
    rw [if_neg hempty] at hcurrent ⊢
    have hsame : h₁.current = h.current := by cases hd <;> rfl
    rw [hsame, hserves.current hp] at hcurrent
    obtain rfl := Option.some.inj hcurrent
    exact .inr ⟨d, rest, x, deadline₀, hserves, hst, hd⟩
  | expired k t hl =>
    have hpro : (h.expireAll cfg k).Proceeds k .ended ((h.expireAll cfg k).leave cfg k) :=
      proceeds_leave
    obtain ⟨ho, hs⟩ := hpro.watches (current_lt_expireAll hlt) hunfailed hw
    refine .inl (hkept (older_expireAll.trans ho) (hs.trans ?_))
    rw [expireAll_cleared]
    exact stage_changeLife
  | answered x outcome hx hans ha =>
    cases ha with
    | mk h₁ hb hc _ =>
      rcases hb.cases hlt with hc' | ⟨e, hf⟩
      · have ho : h₁.Older (h₁.complete x.wait outcome) := .same rfl .refl
        exact .inl (hkept ((hc'.toOlder.trans ho).trans hc.toOlder) ((hc.stages g).trans (hc'.stages g)))
      · exact (hfalls (show h'.failure = h₁.failure from hc.failure) hf).elim
  | visited j u h₁ hu hv hend =>
    obtain rfl : h' = h₁ := (eq_or_dispose hend).resolve_right hundisposed
    exact .inl ⟨hv.visited.toOlder, .inl (hv.watches hw)⟩
  | disposed => exact (hundisposed rfl).elim
  | dropped =>
    rcases disposeIfUnowned_cases { h with dropped := true } with hsame | hdisposed
    · rw [hsame] at hw ⊢
      exact .inl ⟨.same rfl .refl, .inl hw⟩
    · exact (hundisposed hdisposed).elim

/-! Runs. -/

/-- A move that takes no delivery away hands out none. -/
theorem not_routes_of_older (ho : (s n).Older (s (n + 1))) : ¬ Routes s n g taker := by
  rintro ⟨_, d, hd⟩
  rw [routing_of_length_le fun g => (ho.inbound g).length_le] at hd
  cases hd

/-- Whoever hands out deliveries has started. -/
theorem Run.serves_of_routes (hr : Run cfg allowed s) (hroutes : Routes s n g taker) :
    ∃ d rest x, (s n).Serves g d rest x ∧
      ((s n).life g).started = .resolved (.ok ()) := by
  rcases (hr.happening n).older_or_handed with
    ho | ⟨g', d, rest, x, deadline, h₁, hserves, _⟩
  · exact (not_routes_of_older ho hroutes).elim
  · have hcurrent := hserves.current (hr.paired n)
    rw [hroutes.1] at hcurrent
    obtain rfl := Option.some.inj hcurrent
    exact ⟨d, rest, x, hserves, (hserves.started (hr.paired n) (hr.attended n).toOrderly).2⟩

/-- A generation that is about to start has handed out nothing. -/
theorem Run.not_routes_of_opening {x : Generation} (hr : Run cfg allowed s) (hle : k ≤ n)
    (hx : (s n).generations[g]? = some x) (hopening : x.stage.isOpening = true)
    (hgoing : x.life.stopRequested ≠ true) : ¬ Routes s k g taker := by
  intro hroutes
  obtain ⟨d, rest, y, hserves, hstarted⟩ := hr.serves_of_routes hroutes
  obtain ⟨x', hx', honward, _⟩ := hr.grows hle g y hserves.found
  obtain rfl := Option.some.inj (hx.symm.trans hx')
  rw [life_of_some (lives_of_some hserves.found)] at hstarted
  have hmem := List.mem_of_getElem? (lives_of_some hx)
  have hobs := (hr.paired n).unfailed_of_routing hx hgoing |>.2
  rcases GenerationState.isObserving_iff.1 hobs with hs | hs
  · have hpending := ((hr.attended n).signalled _ hmem).unstarted hs
    rw [honward.started _ hstarted] at hpending
    cases hpending
  · exact (hr.attended n).unopened g x hx hopening hs

theorem stage_served {x : Generation} {rest : List Delivery} (hx : h.generations[g]? = some x) :
    (h.served g rest deadline).generations[g]?.map (·.stage) = some (.routing deadline) := by
  rw [served, getElem?_changeGeneration hx]
  rfl

/-- What a delivery that is handed out means for the deadline. -/
theorem Run.dispatched {d : Delivery} {rest : List Delivery} {x : Generation}
    {deadline₀ : Option Nat} (hr : Run cfg allowed s) (hserves : (s n).Serves g d rest x)
    (hd : (s n).Dispatched cfg g deadline₀ d rest (s (n + 1)))
    (hw : (s (n + 1)).Watches g deadline) :
    Routes s n g none ∧ deadline = (deadline₀ <|> some ((s n).clock + cfg.timeout)) ∨
      (∃ i, Routes s n g (some i)) ∧ deadline = none := by
  have hcurrent := hserves.current (hr.paired n)
  have hrouted := routing_of_handed hcurrent (hd.routed hserves).handed.2.1
  have hstage := hw.stage
  generalize heq : s (n + 1) = h' at hd hrouted hstage
  cases hd with
  | unclaimed _ =>
    have hset := (stage_served hserves.found).symm.trans hstage
    refine .inl ⟨⟨hcurrent, d, ?_⟩, (Stage.routing.inj (Option.some.inj hset)).symm⟩
    rw [heq, hrouted]
    exact congrArg (fun taker => some (d, Option.map Claim.wait taker))
      (List.getElem?_eq_none (Nat.le_refl _))
  | claimed message before v behind _ _ _ _ =>
    have hset := (stage_served hserves.found).symm.trans hstage
    refine .inr ⟨⟨v.id, hcurrent, d, ?_⟩, (Stage.routing.inj (Option.some.inj hset)).symm⟩
    rw [heq, hrouted]
    exact congrArg (fun taker => some (d, Option.map Claim.wait taker)) List.getElem?_concat_length

/-- A generation that routes deliveries has a deadline exactly if nobody took a delivery of it since
one was claimed, or since it started: this is a timeout after the first such delivery. -/
theorem Run.deadline_iff (hr : Run cfg allowed s) (hw : (s n).Watches g deadline) :
    deadline = some t ↔ ∃ k, FirstUnclaimed s g n k ∧ t = (s k).clock + cfg.timeout := by
  induction n generalizing deadline t with
  | zero =>
    obtain ⟨x, hx, _⟩ := hw
    rw [hr.start] at hx
    cases hx
  | succ n ih =>
    rcases (hr.happening n).watches (hr.paired n) (hr.paired (n + 1)) hw with
      ⟨ho, hkept | ⟨rfl, x, hx, hopening⟩⟩ | ⟨d, rest, x, deadline₀, hserves, hst, hd⟩
    · rw [ih hkept]
      exact exists_congr fun k =>
        and_congr_left' (firstUnclaimed_of_idle fun _ => not_routes_of_older ho).symm
    · have hgoing : x.life.stopRequested ≠ true := by
        obtain ⟨x', hx', _, hgoing⟩ := hw
        intro hstop
        have hages := ho.lives g
        rw [life_of_some (lives_of_some hx), life_of_some (lives_of_some hx')] at hages
        exact hgoing (hages.stopped hstop)
      refine iff_of_false nofun ?_
      rintro ⟨k, hk, _⟩
      exact hr.not_routes_of_opening (Nat.le_of_lt_succ hk.before) hx hopening hgoing hk.unclaimed
    · have hbefore : (s n).Watches g deadline₀ := ⟨x, hserves.found, hst, hserves.going⟩
      rcases hr.dispatched hserves hd hw with ⟨hu, rfl⟩ | ⟨⟨i, hc⟩, rfl⟩
      · simp only [firstUnclaimed_of_unclaimed hu]
        cases deadline₀ with
        | some t₀ =>
          obtain ⟨k₀, hk₀, _⟩ := (ih (t := t₀) hbefore).1 rfl
          change some t₀ = some t ↔ _
          rw [ih hbefore]
          refine exists_congr fun k => and_congr_left' (iff_self_or.2 ?_)
          exact fun ⟨_, hnone⟩ => (hnone k₀ hk₀).elim
        | none =>
          have hnone : ∀ k, ¬ FirstUnclaimed s g n k := fun k hk => by
            cases (ih hbefore).2 ⟨k, hk, rfl⟩
          change some ((s n).clock + cfg.timeout) = some t ↔ _
          rw [Option.some_inj, eq_comm]
          constructor
          · rintro rfl
            exact ⟨n, .inr ⟨rfl, hnone⟩, rfl⟩
          · rintro ⟨k, hk | ⟨rfl, _⟩, rfl⟩
            · exact (hnone k hk).elim
            · rfl
      · refine iff_of_false nofun ?_
        rintro ⟨k, hk, _⟩
        exact not_firstUnclaimed_of_claimed hc hk

end Intercept.Harness
