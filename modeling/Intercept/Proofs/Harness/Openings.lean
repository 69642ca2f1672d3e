import Intercept.Proofs.Harness.Endings
import Intercept.Proofs.Harness.Faults

/-! How a consumer comes to be attached. It waits for the consumer before it, and then for the answer
of the broker, each for one timeout at most. -/
namespace Intercept
variable {M : Type}

namespace Lifecycle
variable {l l' l'' : Lifecycle}

/-- Nobody is told about the start of a consumer, except that it was cancelled. -/
def Withdraws (l l' : Lifecycle) : Prop :=
  l'.started = l.started ∨ l.started = .pending ∧ l'.started = .resolved (.error .cancelled)

theorem Withdraws.trans (h : l.Withdraws l') (h' : l'.Withdraws l'') : l.Withdraws l'' := by
  rcases h with heq | ⟨hpending, hcancelled⟩
  · rw [Withdraws, heq] at h'
    exact h'
  · rcases h' with heq | ⟨hpending', _⟩
    · exact .inr ⟨hpending, heq.trans hcancelled⟩
    · rw [hcancelled] at hpending'
      cases hpending'

theorem withdraws_stop : l.Withdraws l.stop := by
  obtain ⟨state, stopRequested, started, fullyStopped⟩ := l
  cases state with
  | initial =>
    cases started with
    | pending => exact .inr ⟨rfl, rfl⟩
    | resolved r => exact .inl rfl
  | started | stopped | complete | errored => exact .inl rfl

end Lifecycle

/-- The stages of a consumer whose start is answered by a time, however long the others take. -/
inductive Stage.OpensBy (timeout time clock : Nat) : Stage → Prop
  | created (previous : Option Nat) : clock + 2 * timeout ≤ time →
    OpensBy timeout time clock (.created previous)
  | waiting (previous deadline : Nat) : clock ≤ deadline → deadline + timeout ≤ time →
    OpensBy timeout time clock (.waiting previous deadline)
  | subscribing (answerAt deadline : Nat) (error : Option BrokerError) : clock ≤ deadline →
    deadline ≤ time → OpensBy timeout time clock (.subscribing answerAt deadline error)

theorem Stage.OpensBy.mono {stage : Stage} {timeout time time' clock : Nat}
    (ho : stage.OpensBy timeout time clock) (hle : time ≤ time') :
    stage.OpensBy timeout time' clock := by
  cases ho with
  | created previous h => exact .created previous (by omega)
  | waiting previous deadline h h' => exact .waiting previous deadline h (by omega)
  | subscribing answerAt deadline error h h' => exact .subscribing answerAt deadline error h (by omega)

theorem Stage.OpensBy.clock_le {stage : Stage} {timeout time clock : Nat}
    (ho : stage.OpensBy timeout time clock) : clock ≤ time := by
  cases ho <;> omega

namespace Harness
variable {cfg : Setup M} {allowed : Act M → Prop} {h h' h₁ : Harness M} {s : Nat → Harness M}
  {e : HarnessError} {g i j k n time : Nat} {w : Wait M} {x y : Generation}

/-! Consumers that do not go on. -/

/-- No consumer gets to another stage, and nobody is told that one was attached or has failed. -/
structure Spares (h h' : Harness M) : Prop where
  count : h.generations.length ≤ h'.generations.length
  stages : ∀ k < h.generations.length,
    h'.generations[k]?.map (·.stage) = h.generations[k]?.map (·.stage)
  starts : ∀ k, (h.life k).Withdraws (h'.life k)
  fresh : ∀ (k : Nat) (x : Generation), h'.generations[k]? = some x → h.generations.length ≤ k →
    ∃ previous, x.stage = .created previous

theorem Spares.same (hg : h'.generations = h.generations) : h.Spares h' where
  count := by rw [hg]
  stages := fun _ _ => by rw [hg]
  starts := fun k => .inl (by rw [life, life, hg])
  fresh := fun k x hx hk => by
    rw [hg, List.getElem?_eq_none hk] at hx
    cases hx

theorem Spares.trans {h'' : Harness M} (hs : h.Spares h') (hs' : h'.Spares h'') :
    h.Spares h'' where
  count := Nat.le_trans hs.count hs'.count
  stages := fun k hk =>
    (hs'.stages k (Nat.lt_of_lt_of_le hk hs.count)).trans (hs.stages k hk)
  starts := fun k => (hs.starts k).trans (hs'.starts k)
  fresh := fun k x hx hk => by
    by_cases hk' : k < h'.generations.length
    · have hstage := hs'.stages k hk'
      have hy := List.getElem?_eq_getElem hk'
      obtain ⟨previous, hcreated⟩ := hs.fresh k _ hy hk
      rw [hx, hy, Option.map_some, Option.map_some, hcreated] at hstage
      exact ⟨previous, Option.some.inj hstage⟩
    · exact hs'.fresh k x hx (Nat.le_of_not_lt hk')

theorem spares_stop : h.Spares (h.changeLife g (·.stop)) where
  count := Nat.le_of_eq length_changeGeneration.symm
  stages := fun _ _ => stage_changeLife
  starts := fun _ => life_changeLife_rel (fun _ => .inl rfl) Lifecycle.withdraws_stop
  fresh := fun k x hx hk => by
    have hstage := stage_changeLife (h := h) (g := g) (f := (·.stop)) (k := k)
    rw [hx, List.getElem?_eq_none hk] at hstage
    cases hstage

theorem spares_append {previous : Option Nat}
    (hg : h'.generations = h.generations ++ [({ stage := .created previous } : Generation)]) :
    h.Spares h' where
  count := by
    rw [hg, List.length_append]
    exact Nat.le_add_right _ _
  stages := fun k hk => by rw [hg, List.getElem?_append_left hk]
  starts := fun k => by
    by_cases hk : k < h.generations.length
    · exact .inl (by rw [life_append hg hk])
    · rw [life_of_length_le (Nat.le_of_not_lt hk), life]
      cases hx : h'.generations[k]? with
      | none => exact .inl rfl
      | some x =>
        rw [hg] at hx
        rcases generation_of_append hx with hold | ⟨_, rfl⟩
        · exact (hk (List.getElem?_eq_some_iff.1 hold).1).elim
        · exact .inl rfl
  fresh := fun k x hx hk => by
    rw [hg] at hx
    rcases generation_of_append hx with hold | ⟨_, rfl⟩
    · rw [List.getElem?_eq_none hk] at hold
      cases hold
    · exact ⟨previous, rfl⟩

theorem Calm.spares (hc : h.Calm h') (hf : h.failure = none) : h.Spares h' where
  count := hc.length
  stages := fun k _ => hc.stages k
  starts := fun k => .inl (hc.started hf k)
  fresh := fun k x hx hk => by
    rw [List.getElem?_eq_none (hc.count.trans_le hk)] at hx
    cases hx

theorem spares_dispose : h.Spares h.dispose := by
  by_cases hf : h.failure = some .disposed
  · rw [dispose_of_disposed hf]
    exact .same rfl
  · have hstopped : h.Spares (h.changeCurrent (·.stop)) := by
      rw [changeCurrent]
      split
      · exact .same rfl
      · exact spares_stop
    rw [dispose_eq hf]
    exact hstopped.trans (.same rfl)

theorem spares_deregister : h.Spares (h.deregister i) := by
  have hunlisted : h.Spares (h.unlist i) := .same rfl
  rcases deregister_cases h i with heq | ⟨g, heq⟩
  · rw [heq]
    exact hunlisted
  · rw [heq]
    exact hunlisted.trans spares_stop

theorem Visit.spares (hv : h.Visit cfg i w h₁) : h.Spares h₁ := by
  cases hv with
  | turnedAway _ _ _ | joined _ _ _ _ | accepted _ _ _ | awaited _ | armed _ | finished _ _ _ =>
    exact .same rfl
  | created _ _ _ => exact spares_append rfl
  | refused _ _ _ _ | left _ => exact spares_deregister.trans (.same rfl)
  | expired _ _ _ _ =>
    rw [expire]
    split
    · exact .same rfl
    · have hunlisted : h.Spares (h.unlist i) := .same rfl
      rcases stopIfIdle_cases (h.unlist i) with heq | ⟨g, heq⟩
      · rw [← unlist, heq]
        exact .same rfl
      · rw [← unlist, heq]
        exact hunlisted.trans (spares_stop.trans (.same rfl))

/-- The harness fails with an error, and whoever waits for the current generation is told so. -/
structure Dooms (h : Harness M) (e : HarnessError) (h' : Harness M) : Prop where
  count : h'.generations.length = h.generations.length
  failure : h'.failure = some e
  told : ∀ g, h.current = some g → (h.life g).Frank → (h.life g).started = .pending →
    (h'.life g).started = .resolved (.error e)

theorem Falls.dooms (hf : h.Falls e h') : h.Dooms e h' := ⟨hf.count, hf.failure, hf.answered⟩

/-- As no consumer goes on, the one that may be about to start is spared, unless the harness fails. -/
theorem Aside.spares (ha : h.Aside cfg h')
    (hlt : ∀ g, h.current = some g → g < h.generations.length) (hf : h.failure = none) :
    h.Spares h' ∨ ∃ e, h.Dooms e h' := by
  cases ha with
  | busy hb =>
    rcases hb.cases hlt with hc | ⟨e, he⟩
    · exact .inl (hc.spares hf)
    · exact .inr ⟨e, he.dooms⟩
  | answered x outcome _ _ ha =>
    cases ha with
    | mk h₁ hb hc _ =>
      rcases hb.cases hlt with hc' | ⟨e, he⟩
      · have hcompleted : h₁.Spares (h₁.complete x.wait outcome) := .same rfl
        have hf₁ : (h₁.complete x.wait outcome).failure = none := hc'.failure.trans hf
        exact .inl (((hc'.spares hf).trans hcompleted).trans (hc.spares hf₁))
      · have hsame : h'.failure = h₁.failure := hc.failure
        refine .inr ⟨e, hc.count.trans he.count, hsame.trans he.failure, fun g hg hfrank hp => ?_⟩
        exact (hc.lives g).started _ (he.answered g hg hfrank hp)
  | called w _ _ => exact .inl (.same rfl)
  | visited j u h₁ _ hv hend =>
    rcases eq_or_dispose hend with rfl | rfl
    · exact .inl hv.spares
    · exact .inl (hv.spares.trans spares_dispose)
  | disposed => exact .inl spares_dispose
  | dropped =>
    have hlet : h.Spares { h with dropped := true } := .same rfl
    rcases disposeIfUnowned_cases { h with dropped := true } with heq | heq
    · rw [heq]
      exact .inl hlet
    · rw [heq]
      exact .inl (hlet.trans spares_dispose)

/-- No generation is created as a consumer goes on. -/
theorem Works.count (hw : h.Works cfg g h')
    (hlt : ∀ g, h.current = some g → g < h.generations.length) :
    h'.generations.length = h.generations.length := by
  cases hw with
  | proceeded stage hp =>
    rcases hp.cases hlt with ⟨hq, _⟩ | ⟨e, he⟩
    · exact hq.count
    · exact he.count
  | attached x _ _ ha => exact ha.older.2.2.1
  | handed d rest x deadline h₁ _ _ hd =>
    split
    · exact length_changeGeneration.trans hd.count
    · exact hd.count
  | expired deadline _ =>
    have hlen : (h.expireAll cfg g).generations.length = h.generations.length := by
      rw [expireAll_cleared]
      exact length_changeGeneration
    have hp : (h.expireAll cfg g).Proceeds g .ended ((h.expireAll cfg g).leave cfg g) :=
      proceeds_leave
    rcases hp.cases (current_lt_expireAll hlt) with ⟨hq, _⟩ | ⟨e, he⟩
    · exact hq.count.trans hlen
    · exact he.count.trans hlen

/-- A generation is created at its first stage, and nobody was told yet that it has started. -/
theorem Run.fresh (hr : Run cfg allowed s) (hle : (s n).generations.length ≤ g)
    (hx : (s (n + 1)).generations[g]? = some x) :
    (∃ previous, x.stage = .created previous) ∧ x.life.started ≠ .resolved (.ok ()) := by
  have hlt := (List.getElem?_eq_some_iff.1 hx).1
  have hmore : (s (n + 1)).generations.length ≠ (s n).generations.length := by omega
  have hf : (s n).failure = none := by
    by_contra hf
    exact hmore ((hr.happening n).count (hr.paired n) hf)
  rcases hr.parts n with heq | ⟨k, _, hw⟩ | ha
  · exact (hmore (by rw [heq])).elim
  · exact (hmore (hw.count (hr.current_lt n))).elim
  · rcases ha.spares (hr.current_lt n) hf with hs | ⟨e, he⟩
    · refine ⟨hs.fresh g x hx hle, ?_⟩
      have hstarts := hs.starts g
      rw [life_of_length_le hle, life_of_some (lives_of_some hx)] at hstarts
      rcases hstarts with hsame | ⟨_, hcancelled⟩
      · rw [hsame]
        nofun
      · rw [hcancelled]
        nofun
    · exact (hmore he.count).elim

/-! A consumer that may be about to start. -/

/-- Nobody was told yet about the start of the current consumer. -/
structure Poised (h : Harness M) (g : Nat) : Prop where
  lt : g < h.generations.length
  failure : h.failure = none
  current : h.current = some g
  frank : (h.life g).Frank
  pending : (h.life g).started = .pending

theorem Poised.initial (hp : h.Poised g) : (h.life g).state = .initial :=
  hp.frank.unanswered hp.pending

theorem Calm.poised (hc : h.Calm h') (hp : h.Poised g) : h'.Poised g where
  lt := hp.lt.trans_eq hc.count.symm
  failure := hc.failure.trans hp.failure
  current := hc.current.trans hp.current
  frank := (hc.lives g).frank hp.frank
  pending := (hc.started hp.failure g).trans hp.pending

/-- Whoever waits to be told about a start waits for the current consumer. -/
theorem Paired.poised (hp : h.Paired) (hfrank : (h.life g).Frank)
    (hlt : g < h.generations.length) (hpending : (h.life g).started = .pending) : h.Poised g := by
  obtain ⟨hcurrent, hinitial⟩ := hp.current_of_pending hfrank hlt hpending
  have hlife := lives_of_some (List.getElem?_eq_getElem hlt)
  refine ⟨hlt, (hp.awaited _ (List.mem_of_getElem? hlife) ?_).1, hcurrent, hfrank, hpending⟩
  rw [← life_of_some hlife, hinitial]
  rfl

/-- The broker confirms the subscription of a consumer as the consumer goes on. -/
structure Opens (cfg : Setup M) (h : Harness M) (g : Nat) (h' : Harness M) : Prop where
  step : h.step? cfg (.generation g) = some h'
  confirmed : h.broker.start (h'.consumerOf g) cfg.settings.priority.toInt g = (h'.broker, .ok ())
  started : (h'.life g).started = .resolved (.ok ())

/-- What a move means for a consumer about whose start nobody was told yet. -/
inductive Unfolds (cfg : Setup M) (h : Harness M) (g : Nat) (x : Generation) (h' : Harness M) : Prop
  | rests : h'.generations[g]?.map (·.stage) = some x.stage → (h'.life g).started = .pending →
    Unfolds cfg h g x h'
  /-- It waits for the one before it. -/
  | waits (previous : Nat) : x.stage = .created (some previous) →
    h' = h.enter g (.waiting previous (h.clock + cfg.timeout)) → Unfolds cfg h g x h'
  /-- It asks for a subscription, and the answer takes a while. -/
  | asks (h₁ : Harness M) (answerAt : Nat) (error : Option BrokerError) : h.Admitted x → h.Calm h₁ →
    h' = h₁.enter g (.subscribing answerAt (h.clock + cfg.timeout) error) → Unfolds cfg h g x h'
  | opened : h.Opens cfg g h' → Unfolds cfg h g x h'
  | cancelled : (h'.life g).started = .resolved (.error .cancelled) → Unfolds cfg h g x h'
  | failed (e : HarnessError) : h'.failure = some e →
    (h'.life g).started = .resolved (.error e) → Unfolds cfg h g x h'

theorem consumerOf_changeGeneration {f : Generation → Generation}
    (hf : ∀ x, (f x).consumer = x.consumer) :
    (h.changeGeneration g f).consumerOf k = h.consumerOf k := by
  rw [consumerOf, consumerOf, changeGeneration, List.getElem?_modify]
  cases h.generations[k]? with
  | none => rfl
  | some x => by_cases hg : g = k <;> simp [hg, hf]

theorem consumerOf_enter {stage : Stage} : (h.enter g stage).consumerOf k = h.consumerOf k :=
  consumerOf_changeGeneration fun _ => rfl

theorem consumerOf_changeLife {f : Lifecycle → Lifecycle} :
    (h.changeLife g f).consumerOf k = h.consumerOf k :=
  consumerOf_changeGeneration fun _ => rfl

theorem life_enter {stage : Stage} : (h.enter g stage).life k = h.life k := by
  rw [life_eq, life_eq, lives_enter]

/-- Whoever is told about its start is told that it was confirmed, or cancelled, or how the harness has
failed. -/
theorem Unfolds.answered {r : Except HarnessError Unit} (hu : h.Unfolds cfg g x h')
    (hp : h.Poised g) (hr : (h'.life g).started = .resolved r) :
    h.Opens cfg g h' ∨ r = .error .cancelled ∨ ∃ e, h'.failure = some e ∧ r = .error e := by
  have hnot : (h'.life g).started ≠ .pending := by
    rw [hr]
    nofun
  cases hu with
  | rests _ hsame => exact (hnot hsame).elim
  | waits previous _ heq => exact (hnot (by rw [heq, life_enter, hp.pending])).elim
  | asks h₁ answerAt _ _ hc heq =>
    exact (hnot (by rw [heq, life_enter, hc.started hp.failure, hp.pending])).elim
  | opened hopens => exact .inl hopens
  | cancelled hcancelled => exact .inr (.inl (OneShot.resolved.inj (hr.symm.trans hcancelled)))
  | failed e hfailed herror =>
    exact .inr (.inr ⟨e, hfailed, OneShot.resolved.inj (hr.symm.trans herror)⟩)

/-- The life of a generation that gets to another stage at the same time. -/
theorem life_enter_changeLife {stage : Stage} {f : Lifecycle → Lifecycle}
    (hlt : g < h.generations.length) : ((h.enter g stage).changeLife g f).life g = f (h.life g) := by
  have hlt' : g < (h.enter g stage).generations.length := hlt.trans_eq length_changeGeneration.symm
  rw [life_changeLife hlt', if_pos rfl, life_enter]

/-- Whoever waits for a consumer that could not start is told why. -/
theorem Poised.startFailed (hp : h.Poised g) : (h.startFailed g e).failure = some e ∧
    ((h.startFailed g e).life g).started = .resolved (.error e) := by
  refine ⟨failure_failGeneration_self hp.failure, (older_fail.lives g).started _ ?_⟩
  rw [life_enter_changeLife hp.lt]
  exact Lifecycle.setException_answers hp.frank hp.pending

/-- The broker attaches a consumer, or its start fails. -/
theorem Poised.attach (hp : h.Poised g) (cfg : Setup M) :
    h.broker.start ((h.attach cfg g).consumerOf g) cfg.settings.priority.toInt g =
        ((h.attach cfg g).broker, .ok ()) ∧
      ((h.attach cfg g).life g).started = .resolved (.ok ()) ∨
    ∃ e, (h.attach cfg g).failure = some e ∧
      ((h.attach cfg g).life g).started = .resolved (.error e) := by
  rw [Harness.attach, ← consumerOf]
  cases hb : h.broker.start (h.consumerOf g) cfg.settings.priority.toInt g with
  | mk broker result =>
    cases result with
    | ok =>
      have hconsumer : ((({ h with broker } : Harness M).enter g (.routing none)).changeLife g
          (·.setStarted)).consumerOf g = h.consumerOf g :=
        consumerOf_changeLife.trans consumerOf_enter
      have hlife : ((({ h with broker } : Harness M).enter g (.routing none)).changeLife g
          (·.setStarted)).life g = (h.life g).setStarted :=
        life_enter_changeLife (h := { h with broker }) hp.lt
      refine .inl ⟨hconsumer ▸ hb, ?_⟩
      rw [hlife, Lifecycle.setStarted, hp.initial]
      simp only [GenerationState.on, hp.pending, OneShot.resolve_pending]
    | error b =>
      have hp' : ({ h with broker } : Harness M).Poised g := { hp with }
      exact .inr ⟨.transport b, hp'.startFailed⟩

theorem Poised.unfolds_startFailed (hp : h.Poised g) : h.Unfolds cfg g x (h.startFailed g e) :=
  .failed e hp.startFailed.1 hp.startFailed.2

theorem Poised.unfolds_attach (hp : h.Poised g)
    (hs : h.step? cfg (.generation g) = some (h.attach cfg g)) :
    h.Unfolds cfg g x (h.attach cfg g) := by
  rcases hp.attach cfg with ⟨hconfirmed, hok⟩ | ⟨e, he, herror⟩
  · exact .opened ⟨hs, hconfirmed, hok⟩
  · exact .failed e he herror

/-- A consumer that is admitted asks for its subscription. -/
theorem Poised.unfolds_subscribe (hp : h.Poised g) (hgoing : (h.life g).stopRequested ≠ true)
    (ha : h.Admitted x) (hs : h.step? cfg (.generation g) = some (h.subscribe cfg g)) :
    h.Unfolds cfg g x (h.subscribe cfg g) := by
  let h₁ : Harness M := { h with subscriptions := h.subscriptions ++ [g] }.changeGeneration g fun x =>
    { x with consumer := cfg.consumerTag h.subscriptions.length }
  have hcalm : h.Calm h₁ := by
    have hasked : h.Calm { h with subscriptions := h.subscriptions ++ [g] } := .same rfl rfl .refl
    exact hasked.trans (calm_changeGeneration (fun _ => rfl) (fun _ => List.prefix_rfl) fun _ => rfl)
  have hp₁ : h₁.Poised g := hcalm.poised hp
  rw [subscribe, if_neg hgoing] at hs ⊢
  cases hstart : cfg.connection.start h.subscriptions.length with
  | prompt =>
    simp only [hstart] at hs ⊢
    rcases hp₁.attach cfg with ⟨hconfirmed, hok⟩ | ⟨e, he, herror⟩
    · exact .opened ⟨hs, hconfirmed, hok⟩
    · exact .failed e he herror
  | refused b =>
    simp only [hstart]
    exact .failed _ hp₁.startFailed.1 hp₁.startFailed.2
  | delayed ms error =>
    simp only [hstart]
    exact .asks h₁ (h.clock + ms) error ha hcalm rfl

/-- What it means for such a consumer that it goes on. -/
theorem Poised.unfolds_step (hp : h.Poised g) (ho : h.Orderly)
    (hgoing : (h.life g).stopRequested ≠ true) (hx : h.generations[g]? = some x)
    (hs : h.step? cfg (.generation g) = some h') : h.Unfolds cfg g x h' := by
  have hstep := hs
  rw [step?, stepGeneration?, hx, Option.bind_eq_bind, Option.bind_some] at hs
  split at hs
  · next hst =>
    cases hs
    exact hp.unfolds_subscribe hgoing (.inl hst) hstep
  · next previous hst =>
    cases hs
    exact .waits previous hst rfl
  · next previous deadline hst =>
    split at hs
    · next hdone =>
      cases hs
      have hcompleted : h.Completed previous := by
        rw [Completed]
        cases hsig : (h.life previous).fullyStopped <;> simp_all
      exact hp.unfolds_subscribe hgoing (.inr ⟨previous, deadline, hst, hcompleted⟩) hstep
    · cases hs
      exact hp.unfolds_startFailed
    · split at hs <;> cases hs
      exact hp.unfolds_startFailed
  · split at hs
    · split at hs <;> cases hs
      · exact hp.unfolds_attach hstep
      · exact hp.unfolds_startFailed
    · split at hs <;> cases hs
      exact hp.unfolds_startFailed
  · next deadline hst =>
    have hinitial := hp.initial
    rw [life_of_some (lives_of_some hx)] at hinitial
    exact (ho.opened g x deadline hx hst hinitial).elim
  · cases hs

/-- Such a consumer does not notice that another one goes on, unless the harness fails. -/
theorem Works.unfolds (hw : h.Works cfg k h') (hpaired : h.Paired) (hp : h.Poised g)
    (hx : h.generations[g]? = some x) (hk : k ≠ g) : h.Unfolds cfg g x h' := by
  have hcurrent := hp.current
  have hstage : h.generations[g]?.map (·.stage) = some x.stage := by rw [hx]; rfl
  cases hw with
  | proceeded stage hpro =>
    rcases hpro.cases hpaired.exists_current with ⟨hq, _, hothers, _⟩ | ⟨e, he⟩
    · exact .rests ((hothers g (Ne.symm hk)).trans hstage)
        ((hq.started hp.failure g).trans hp.pending)
    · exact .failed e he.failure (he.answered g hcurrent hp.frank hp.pending)
  | attached y _ _ ha =>
    obtain ⟨_, _, _, hothers, _⟩ := ha.older
    refine .rests ((hothers g (Ne.symm hk)).trans hstage) ?_
    cases ha with
    | mk h₁ hc =>
      have hq : h.Quiet (h₁.enter k (.routing none)) := hc.toQuiet.trans quiet_enter
      rw [life_changeLife (hp.lt.trans_eq hq.count.symm), if_neg hk, hq.started hp.failure, hp.pending]
  | handed d rest y deadline h₁ hserves _ _ =>
    rw [hserves.current hpaired] at hcurrent
    exact (hk (Option.some.inj hcurrent)).elim
  | expired deadline hl =>
    rw [(hpaired.current_of_watches hl.routing).1] at hcurrent
    exact (hk (Option.some.inj hcurrent)).elim

theorem Aside.unfolds (ha : h.Aside cfg h') (hpaired : h.Paired) (hp : h.Poised g)
    (hx : h.generations[g]? = some x) : h.Unfolds cfg g x h' := by
  rcases ha.spares hpaired.exists_current hp.failure with hs | ⟨e, he⟩
  · rcases hs.starts g with hsame | ⟨_, hcancelled⟩
    · exact .rests ((hs.stages g hp.lt).trans (by rw [hx]; rfl)) (hsame.trans hp.pending)
    · exact .cancelled hcancelled
  · exact .failed e he.failure (he.told g hp.current hp.frank hp.pending)

/-! Runs. -/

section
variable (hr : Run cfg allowed s)
include hr

theorem Run.poised (hlt : g < (s n).generations.length)
    (hpending : ((s n).life g).started = .pending) : (s n).Poised g :=
  (hr.paired n).poised ((hr.founded n).1 g) hlt hpending

/-- Nobody is told anything twice. -/
theorem Run.pending_of_succ (hpending : ((s (n + 1)).life g).started = .pending) :
    ((s n).life g).started = .pending := by
  cases hstarted : ((s n).life g).started with
  | pending => rfl
  | resolved r =>
    rw [(hr.ages n g).started r hstarted] at hpending
    cases hpending

theorem Run.unfolds (hx : (s n).generations[g]? = some x)
    (hpending : ((s n).life g).started = .pending) : (s n).Unfolds cfg g x (s (n + 1)) := by
  have hpaired := hr.paired n
  have hp := hr.poised (List.getElem?_eq_some_iff.1 hx).1 hpending
  rcases hr.parts n with heq | ⟨k, hs, hw⟩ | ha
  · rw [heq]
    exact .rests (congrArg (Option.map (·.stage)) hx) hpending
  · by_cases hk : k = g
    · subst hk
      have hconsistent := hpaired.consistent _ (List.mem_of_getElem? (lives_of_some hx))
      have hgoing : ((s n).life k).stopRequested ≠ true := by
        have hinitial := hp.initial
        rw [life_of_some (lives_of_some hx)] at hinitial ⊢
        rw [hconsistent, hinitial]
        exact Bool.false_ne_true
      exact hp.unfolds_step (hr.attended n).toOrderly hgoing hx hs
    · exact hw.unfolds hpaired hp hx hk
  · exact ha.unfolds hpaired hp hx

/-- Whoever was told that a consumer has started was told so as the broker confirmed it. -/
theorem Run.opened (hok : ((s n).life g).started = .resolved (.ok ())) :
    ∃ m < n, (s m).Opens cfg g (s (m + 1)) := by
  induction n with
  | zero =>
    rw [hr.start] at hok
    cases hok
  | succ n ih =>
    by_cases hbefore : ((s n).life g).started = .resolved (.ok ())
    · obtain ⟨m, hm, hopens⟩ := ih hbefore
      exact ⟨m, Nat.lt_succ_of_lt hm, hopens⟩
    · refine ⟨n, Nat.lt_succ_self n, ?_⟩
      have hpending : ((s n).life g).started = .pending := by
        cases hstarted : ((s n).life g).started with
        | pending => rfl
        | resolved r =>
          rw [(hr.ages n g).started r hstarted] at hok
          rw [hok] at hstarted
          exact (hbefore hstarted).elim
      cases hx : (s n).generations[g]? with
      | none =>
        cases hy : (s (n + 1)).generations[g]? with
        | none =>
          rw [life, hy] at hok
          cases hok
        | some y =>
          rw [life_of_some (lives_of_some hy)] at hok
          exact ((hr.fresh (List.getElem?_eq_none_iff.1 hx) hy).2 hok).elim
      | some x =>
        have hp := hr.poised (List.getElem?_eq_some_iff.1 hx).1 hpending
        rcases (hr.unfolds hx hpending).answered hp hok with hopens | hcancelled | ⟨e, _, herror⟩
        · exact hopens
        · cases hcancelled
        · cases herror

/-! The time it takes. -/

/-- A consumer that is due goes on before the clock does. -/
theorem Run.opensBy_tick (hp : Punctual cfg s) (hx : (s n).generations[g]? = some x)
    (hby : x.stage.OpensBy cfg.timeout time (s n).clock) :
    x.stage.OpensBy cfg.timeout time (s (n + 1)).clock := by
  have hstill : ∀ {h' : Harness M}, (s n).stepGeneration? cfg g = some h' →
      (s (n + 1)).clock = (s n).clock := fun hs => hp.still (t := .generation g) hs
  have hnext : ∀ {deadline : Nat}, (s n).clock ≤ deadline →
      (deadline ≤ (s n).clock → ∃ h', (s n).stepGeneration? cfg g = some h') →
      (s (n + 1)).clock ≤ deadline := by
    intro deadline hle hready
    rcases Nat.lt_or_eq_of_le hle with hbefore | hdue
    · rcases hr.clock_succ n with heq | heq
      · rwa [heq]
      · rw [heq]
        exact hbefore
    · obtain ⟨h', hs⟩ := hready (Nat.le_of_eq hdue.symm)
      rwa [hstill hs]
  generalize hst : x.stage = stage at hby
  cases hby with
  | created previous hle =>
    have hready : ∃ h', (s n).stepGeneration? cfg g = some h' := by
      rw [stepGeneration?, hx, Option.bind_eq_bind, Option.bind_some, hst]
      cases previous <;> exact ⟨_, rfl⟩
    obtain ⟨h', hs⟩ := hready
    rw [hstill hs]
    exact .created previous hle
  | waiting previous deadline hle hby =>
    refine .waiting previous deadline (hnext hle fun hdue => ?_) hby
    rw [stepGeneration?, hx, Option.bind_eq_bind, Option.bind_some, hst]
    simp only [if_pos hdue]
    split <;> exact ⟨_, rfl⟩
  | subscribing answerAt deadline error hle hby =>
    refine .subscribing answerAt deadline error (hnext hle fun hdue => ?_) hby
    rw [stepGeneration?, hx, Option.bind_eq_bind, Option.bind_some, hst]
    simp only [if_pos hdue]
    split
    · cases error <;> exact ⟨_, rfl⟩
    · exact ⟨_, rfl⟩

/-- As a consumer goes on, the time by which it is answered stays the same. -/
theorem Run.opensBy_succ (hp : Punctual cfg s) (hx : (s n).generations[g]? = some x)
    (hy : (s (n + 1)).generations[g]? = some y) (hpending : y.life.started = .pending)
    (hby : x.stage.OpensBy cfg.timeout time (s n).clock) :
    y.stage.OpensBy cfg.timeout time (s (n + 1)).clock := by
  have hlife : ((s (n + 1)).life g).started = .pending := by
    rwa [life_of_some (lives_of_some hy)]
  have hbefore := hr.pending_of_succ hlife
  have hstage : ∀ {h : Harness M} {stage : Stage}, s (n + 1) = h.enter g stage → y.stage = stage :=
    fun heq => stage_enter_self (heq ▸ congrArg (Option.map Generation.stage) hy)
  cases hr.unfolds hx hbefore with
  | rests hsame _ =>
    rw [hy] at hsame
    have hst : y.stage = x.stage := Option.some.inj hsame
    rw [hst]
    exact hr.opensBy_tick hp hx hby
  | waits previous hst heq =>
    have hclock : (s (n + 1)).clock = (s n).clock := by rw [heq]; rfl
    rw [hst] at hby
    rw [hstage heq, hclock]
    cases hby with
    | created _ hle => exact .waiting previous _ (Nat.le_add_right _ _) (by omega)
  | asks h₁ answerAt error hadmitted hc heq =>
    have hclock : (s (n + 1)).clock = (s n).clock := by rw [heq]; exact hc.clock
    rw [hstage heq, hclock]
    refine .subscribing answerAt _ error (Nat.le_add_right _ _) ?_
    rcases hadmitted with hst | ⟨previous, deadline, hst, _⟩ <;> rw [hst] at hby <;> cases hby <;>
      omega
  | opened hopens =>
    rw [hopens.started] at hlife
    cases hlife
  | cancelled herror | failed _ _ herror =>
    rw [herror] at hlife
    cases hlife

/-- Whoever waits for a consumer to start is answered within two timeouts. -/
theorem Run.opensBy (hp : Punctual cfg s) (hx : (s n).generations[g]? = some x)
    (hpending : x.life.started = .pending) :
    x.stage.OpensBy cfg.timeout ((s n).clock + 2 * cfg.timeout) (s n).clock := by
  induction n generalizing x with
  | zero =>
    rw [hr.start] at hx
    cases hx
  | succ n ih =>
    cases hu : (s n).generations[g]? with
    | none =>
      obtain ⟨⟨previous, hst⟩, _⟩ := hr.fresh (List.getElem?_eq_none_iff.1 hu) hx
      rw [hst]
      exact .created previous (Nat.le_refl _)
    | some u =>
      have hstarted : u.life.started = .pending := by
        rw [← life_of_some (lives_of_some hx)] at hpending
        rw [← life_of_some (lives_of_some hu)]
        exact hr.pending_of_succ hpending
      have hle : (s n).clock ≤ (s (n + 1)).clock := hr.clock_le (Nat.le_succ n)
      exact (hr.opensBy_succ hp hu hx hpending (ih hu hstarted)).mono (by omega)

end

end Harness
end Intercept
