import Intercept.Proofs.Harness.Settling

/-! Generations and acts keep the books of a harness that is the only client of its broker. -/
namespace Intercept.Harness
variable {M : Type} {cfg : Setup M} {h h' : Harness M} {f g i : Nat} {x : Generation}
  {e : HarnessError}

/-! A generation that has not subscribed yet. -/

/-- A generation that was asked to stop, and has neither failed nor handed its messages back, is
stopped. -/
theorem Live.stopped (hl : h.Live f) (hp : h.Paired) (hfail : h.failure = none)
    (hx : h.generations[f]? = some x) (hs : x.life.stopRequested = true) :
    x.life.state = .stopped := by
  have hmem := List.mem_of_getElem? (lives_of_some hx)
  have hcons : x.life.stopRequested = !x.life.state.isObserving := hp.consistent _ hmem
  have hcomplete := (hl.lineup.ahead f x hx (Nat.le_refl f)).2
  have herr := hp.unfailed hfail _ hmem
  rw [hs] at hcons
  cases hstate : x.life.state with
  | initial | started =>
    rw [hstate] at hcons
    cases hcons
  | stopped => rfl
  | complete => exact (hcomplete hstate).elim
  | errored => exact (herr hstate).elim

/-- A generation that was not asked to stop observes the queue, which no generation does after a
failure. -/
theorem Paired.unfailed_of_routing (hp : h.Paired) (hx : h.generations[g]? = some x)
    (hs : x.life.stopRequested ≠ true) :
    h.failure = none ∧ x.life.state.isObserving = true := by
  have hmem := List.mem_of_getElem? (lives_of_some hx)
  have hobs := (hp.consistent _ hmem).observing hs
  exact ⟨(hp.awaited _ hmem hobs).1, hobs⟩

theorem getElem?_changeGeneration {φ : Generation → Generation} (hx : h.generations[g]? = some x) :
    (h.changeGeneration g φ).generations[g]? = some (φ x) := by
  rw [changeGeneration, List.getElem?_modify_eq, hx]
  rfl

/-- The front changes before it has subscribed. -/
theorem Live.changeOpening {φ : Generation → Generation} (hl : h.Live g)
    (hx : h.generations[g]? = some x) (hst : x.stage.isOpening = true)
    (hlife : ∀ x, (φ x).life = x.life) (hst' : (φ x).stage.isOpening = true)
    (hin : (φ x).inbound = x.inbound) : (h.changeGeneration g φ).Live g := by
  obtain ⟨hnone, hc, hh, hle⟩ := hl.front.of_opening hx hst
  exact ⟨hl.toStanding.changeFront hlife,
    .opening _ (getElem?_changeGeneration hx) hst' (hin.trans hnone) hc hh hle⟩

/-- The broker attaches the front. -/
theorem Kept.attach (hk : h.Kept) (hx : h.generations[g]? = some x)
    (hlive : h.failure = none → h.Live g) (hst : x.stage.isOpening = true) :
    (h.attach cfg g).Settled := by
  have hconsumer : (h.generations[g]?.map (·.consumer)).getD "" = x.consumer := by rw [hx]; rfl
  rw [Harness.attach, hconsumer]
  by_cases hd : h.broker.disposed = true
  · simp only [Broker.start_of_disposed hd]
    exact Kept.startFailed (hk.quiet rfl)
  · have hd := Bool.eq_false_iff.2 hd
    simp only [Broker.start_of_open hd]
    refine Settled.changeLife ?_ Lifecycle.steady_setStarted
    have hs : h.broker.Still { h.broker.record (.start x.consumer cfg.settings.priority.toInt) with
        consumers := h.broker.consumers ++ [⟨x.consumer, cfg.settings.priority.toInt, g⟩] } := by
      have hrecord := h.broker.still_record (.start x.consumer cfg.settings.priority.toInt)
        (by simp)
      exact ⟨rfl, rfl, rfl, rfl, rfl, hrecord.nacks⟩
    refine ⟨(hk.still hs rfl hd).quiet rfl, fun hf => ⟨g, ?_⟩⟩
    have hl := hlive hf
    obtain ⟨hnone, hc, hh, _⟩ := hl.front.of_opening hx hst
    refine ⟨(hl.toStanding.still hs rfl).changeFront fun _ => rfl, ?_⟩
    have hattached : h.broker.consumers ++ [⟨x.consumer, cfg.settings.priority.toInt, g⟩] =
        [⟨x.consumer, cfg.settings.priority.toInt, g⟩] := by
      rw [hc]
      rfl
    refine .routing { x with stage := .routing none } _ none (getElem?_changeGeneration hx) rfl
      hattached rfl rfl hh ?_
    change Fresh _ _ x.inbound
    rw [hnone]
    exact fresh_nil

/-- A generation that was stopped before it subscribed has nothing to cancel. -/
theorem Live.abandoned (hl : h.Live g) (hp : h.Paired) (hf : h.failure = none)
    (hx : h.generations[g]? = some x) (hst : x.stage.isOpening = true)
    (hstop : x.life.stopRequested = true) : (h.enter g .ended).Closing g := by
  obtain ⟨_, hc, hh, _⟩ := hl.front.of_opening hx hst
  have hstopped := hl.stopped hp hf hx hstop
  exact ⟨hl.toStanding.enter, ⟨{ x with stage := .ended }, getElem?_changeGeneration hx, rfl,
    hstopped⟩, hc, hh⟩

theorem Kept.subscribe (hk : h.Kept) (hp : h.Paired) (hx : h.generations[g]? = some x)
    (hlive : h.failure = none → h.Live g) (hst : x.stage.isOpening = true) :
    (h.subscribe cfg g).Settled := by
  have hlife : h.life g = x.life := life_of_some (lives_of_some hx)
  rw [Harness.subscribe, hlife]
  split
  · next hstop =>
    have hended : (h.enter g .ended).Kept := hk.quiet rfl
    by_cases hf : h.failure = none
    · exact ((hlive hf).abandoned hp hf hx hst hstop).teardown hended
    · exact hended.teardown_of_failure hf
  · next hstop =>
    have hl := hlive (hp.unfailed_of_routing hx hstop).1
    let φ : Generation → Generation := fun x =>
      { x with consumer := cfg.consumerTag h.subscriptions.length }
    let h₁ : Harness M := { h with subscriptions := h.subscriptions ++ [g] }.changeGeneration g φ
    have hk₁ : h₁.Kept := hk.quiet rfl
    have hsub : ({ h with subscriptions := h.subscriptions ++ [g] } : Harness M).Live g :=
      ⟨⟨hl.active, hl.lineup, hl.latest⟩, hl.front⟩
    have hl₁ : h₁.Live g := hsub.changeOpening hx hst (fun _ => rfl) hst rfl
    have hx₁ : h₁.generations[g]? = some (φ x) := getElem?_changeGeneration hx
    simp only
    cases cfg.connection.start h.subscriptions.length with
    | prompt => exact hk₁.attach hx₁ (fun _ => hl₁) hst
    | refused e => exact hk₁.startFailed
    | delayed ms =>
      exact ⟨hk₁.quiet rfl,
        fun _ => ⟨g, hl₁.changeOpening hx₁ hst (fun _ => rfl) rfl rfl⟩⟩

/-! A generation that routes its deliveries. -/

/-- Its consumer is cancelled at a broker that goes on like this. -/
def cancelled (h : Harness M) (g : Nat) (broker : Broker Nat) : Harness M :=
  { h.enter g .ended with cancelCalls := h.cancelCalls + 1, broker }

theorem still_cancel {c : Consumer Nat} (b : Broker Nat) (held : List (Consumer Nat)) :
    b.Still { b.record (.cancel c.tag) with consumers := [], held } :=
  ⟨rfl, rfl, rfl, rfl, rfl, (Broker.still_record (b := b) (.cancel c.tag) (by simp)).nacks⟩

/-- Its cancel is to be confirmed at once. -/
theorem Live.cancelled {c : Consumer Nat} {deadline : Option Nat} (hl : h.Live g)
    (hx : h.generations[g]? = some x) (hst : x.stage = .routing deadline)
    (hstopped : x.life.state = .stopped) :
    (h.cancelled g { h.broker.record (.cancel c.tag) with consumers := [] }).Closing g := by
  obtain ⟨_, _, _, _, hh, _⟩ := hl.front.of_routing hx hst
  have hn : (h.enter g .ended).Standing g := hl.toStanding.enter
  have hs := still_cancel (c := c) h.broker h.broker.held
  exact ⟨(hn.still hs rfl).quiet rfl rfl rfl,
    ⟨{ x with stage := .ended }, getElem?_changeGeneration hx, rfl, hstopped⟩, rfl, hh⟩

theorem Kept.cancelled {c : Consumer Nat} (hk : h.Kept) (hd : h.broker.disposed = false) :
    (h.cancelled g { h.broker.record (.cancel c.tag) with consumers := [] }).Kept :=
  (hk.still (still_cancel (c := c) h.broker h.broker.held) rfl hd).quiet rfl

/-- It leaves. -/
theorem Kept.leave {deadline : Option Nat} (hk : h.Kept) (hx : h.generations[g]? = some x)
    (hlive : h.failure = none → h.Live g) (hst : x.stage = .routing deadline)
    (hstop : h.failure = none → x.life.state = .stopped) : (h.leave cfg g).Settled := by
  have hconsumer : (h.generations[g]?.map (·.consumer)).getD "" = x.consumer := by rw [hx]; rfl
  have hended : ({ h.enter g .ended with cancelCalls := h.cancelCalls + 1 } : Harness M).Kept :=
    hk.quiet rfl
  rw [Harness.leave, hconsumer]
  simp only
  split
  · exact hended.fail
  · by_cases hd : h.broker.disposed = true
    · have hcancel : (h.enter g .ended).broker.cancel x.consumer =
          (h.broker, .error .closed) := Broker.cancel_of_disposed hd
      simp only [hcancel]
      exact Kept.fail (hk.quiet rfl)
    · have hd := Bool.eq_false_iff.2 hd
      have hf := hk.unfailed hd
      have hl := hlive hf
      obtain ⟨c, hc, htag, hsink, hh, _⟩ := hl.front.of_routing hx hst
      have hcancel := Broker.cancel_of_single hd hc
      rw [htag] at hcancel
      by_cases hhold : h.broker.holding = true
      · rw [if_pos hhold] at hcancel
        have henter : (h.enter g .ended).broker.cancel x.consumer = _ := hcancel
        simp only [henter]
        have hs := still_cancel (c := c) h.broker (h.broker.held ++ [c])
        rw [htag] at hs
        have hn : (h.enter g .ended).Standing g := hl.toStanding.enter
        refine ⟨(hk.still hs rfl hd).quiet rfl,
          fun _ => ⟨g, (hn.still hs rfl).quiet rfl rfl rfl, ?_⟩⟩
        have hheld : h.broker.held ++ [c] = [c] := by rw [hh]; rfl
        exact .closing { x with stage := .ended } c (getElem?_changeGeneration hx) rfl (hstop hf) rfl
          hheld hsink
      · rw [if_neg hhold] at hcancel
        have henter : (h.enter g .ended).broker.cancel x.consumer = _ := hcancel
        simp only [henter]
        have hclosing := hl.cancelled (c := c) hx hst (hstop hf)
        have hkept := hk.cancelled (g := g) (c := c) hd
        rw [htag] at hclosing hkept
        exact hclosing.confirm hkept hsink

theorem Queued.append {claims : List (Claim M)} {queue : List Nat} {claim : Claim M}
    (hq : Queued claims queue) : Queued (claims ++ [claim]) queue := by
  refine ⟨hq.distinct, fun k hk => ?_⟩
  obtain ⟨y, hy, hqueued⟩ := hq.queued k hk
  refine ⟨y, ?_, hqueued⟩
  rw [List.getElem?_append_left (List.getElem?_eq_some_iff.1 hy).1, hy]

/-- It offers a delivery, which nobody or one waiter takes. -/
theorem Kept.offer {h₁ : Harness M} {d : Delivery} {rest : List Delivery} {deadline : Option Nat}
    (hk : h.Kept) (hl : h.Live g) (hx : h.generations[g]? = some x)
    (hst : x.stage = .routing deadline) (hin : x.inbound = d :: rest)
    (ho : (h.changeGeneration g fun x => { x with inbound := rest }).Offered g d h₁) :
    h₁.Settled := by
  obtain ⟨c, hc, htag, hsink, hh, hfresh⟩ := hl.front.of_routing hx hst
  rw [hin] at hfresh
  have hx₀ : (h.changeGeneration g fun x => { x with inbound := rest }).generations[g]? =
      some { x with inbound := rest } := getElem?_changeGeneration hx
  have hn : (h.changeGeneration g fun x => { x with inbound := rest }).Standing g :=
    hl.toStanding.changeFront fun _ => rfl
  cases ho with
  | unclaimed waiters deadline' _ =>
    refine ⟨hk.quiet rfl, fun _ => ⟨g, Standing.enter (hn.quiet rfl rfl rfl), ?_⟩⟩
    exact .routing { x with inbound := rest, stage := .routing deadline' } c deadline'
      (getElem?_changeGeneration hx₀) rfl hc htag hsink hh hfresh.tail
  | claimed waiters claim _ hclaim hstage =>
    obtain ⟨hlt, hle, hfree⟩ := hfresh.unclaimed d (List.mem_cons_self ..)
    rw [← hclaim] at hlt hle hfree
    have ha := hl.active.claim hlt hle hfree (by rw [hstage]; rfl)
    rw [hclaim] at ha
    refine ⟨⟨ha.toBooks, hk.queue.append, hk.released, hk.disposed⟩,
      fun _ => ⟨g, Standing.enter ⟨ha, hn.lineup, hn.latest⟩, ?_⟩⟩
    exact .routing { x with inbound := rest, stage := .routing none } c none
      (getElem?_changeGeneration hx₀) rfl hc htag hsink hh (hfresh.claim hclaim)

theorem expireAll_eq (cfg : Setup M) (h : Harness M) (g : Nat) : ∃ waits,
    h.expireAll cfg g = ({ h with waits, waiters := [] } : Harness M).changeLife g (·.stop) := by
  obtain ⟨waits, heq⟩ := foldl_complete h h.waiters fun w =>
    .error (w.timeoutError (w.report .unackedMessage cfg.settings.timeout cfg.context))
  refine ⟨waits, ?_⟩
  rw [Harness.expireAll, heq]

theorem Kept.expireAll (hk : h.Kept) : (h.expireAll cfg g).Kept := by
  obtain ⟨waits, heq⟩ := expireAll_eq cfg h g
  rw [heq]
  exact hk.quiet rfl

theorem Live.expireAll (hl : h.Live f) : (h.expireAll cfg g).Live f := by
  obtain ⟨waits, heq⟩ := expireAll_eq cfg h g
  have hw : ({ h with waits, waiters := [] } : Harness M).Live f :=
    ⟨⟨hl.active, hl.lineup, hl.latest⟩, hl.front⟩
  rw [heq]
  exact hw.changeLife Lifecycle.steady_stop

theorem expireAll_generation (hx : h.generations[g]? = some x) :
    (h.expireAll cfg g).generations[g]? = some { x with life := x.life.stop } := by
  obtain ⟨waits, heq⟩ := expireAll_eq cfg h g
  rw [heq]
  exact getElem?_changeGeneration (h := { h with waits, waiters := [] }) hx

theorem Settled.route? {deadline : Option Nat} (hi : h.Settled) (hp : h.Paired)
    (hx : h.generations[g]? = some x) (hlive : h.failure = none → h.Live g)
    (hst : x.stage = .routing deadline) (hs : h.route? cfg g deadline = some h') :
    h'.Settled := by
  simp only [Harness.route?, hx, Option.bind_eq_bind, Option.bind_some] at hs
  split at hs
  · next hstop =>
    cases hs
    exact hi.toKept.leave hx hlive hst fun hf => (hlive hf).stopped hp hf hx hstop
  · next hstop =>
    obtain ⟨hf, hobs⟩ := hp.unfailed_of_routing hx hstop
    have hl := hlive hf
    split at hs
    · cases hs
      exact hi.toKept.expireAll.leave (expireAll_generation hx) (fun _ => hl.expireAll) hst
        fun _ => Lifecycle.stop_state hobs
    · split at hs
      · next d rest hin =>
        cases hs
        obtain ⟨h₁, hoffer, heq⟩ := dispatch_offered cfg
          (h.changeGeneration g fun x => { x with inbound := rest }) g deadline d
        have hi₁ := hi.toKept.offer hl hx hst hin hoffer
        rw [heq]
        split
        · exact hi₁.changeLife Lifecycle.steady_stop
        · exact hi₁
      · split at hs
        · cases hs
        · next hhandles =>
          -- The consumer is attached, so its handlers exist.
          obtain ⟨c, hc, _, hsink, _⟩ := hl.front.of_routing hx hst
          refine (hhandles ?_).elim
          simp [handles, hc, hsink]

theorem Settled.live_front (hi : h.Settled) (hfront : ∀ f, h.Live f → g = f)
    (hf : h.failure = none) : h.Live g := by
  obtain ⟨f, hl⟩ := hi.live hf
  rw [hfront f hl]
  exact hl

/-- A generation begins to wait for the one before it. -/
theorem Settled.enter_waiting {previous deadline : Nat} (hi : h.Settled)
    (hx : h.generations[g]? = some x) (hst : x.stage = .created (some previous)) :
    (h.enter g (.waiting previous deadline)).Settled := by
  refine ⟨hi.toKept.quiet rfl, fun hf => ?_⟩
  obtain ⟨f, hl⟩ := hi.live hf
  rcases Nat.lt_trichotomy g f with hlt | rfl | hgt
  · have hended := (hl.lineup.past g x hx hlt).1
    rw [hst] at hended
    cases hended
  · have hopening : x.stage.isOpening = true := by rw [hst]; rfl
    exact ⟨g, hl.changeOpening hx hopening (fun _ => rfl) rfl rfl⟩
  · have hprev : previous = g - 1 := by
      rcases (hl.lineup.behind g x hx hgt).2 with hs | ⟨d, hs⟩
      · rw [hst] at hs
        cases hs
        rfl
      · rw [hst] at hs
        cases hs
    subst hprev
    exact ⟨f, ⟨hl.active, hl.lineup.enter_waiting hgt, (List.length_modify _ _ _).trans hl.latest⟩,
      hl.front.modify_other (Nat.ne_of_gt hgt)⟩

/-- Who waits for a generation that has handed its messages back is the front. -/
theorem Live.front_of_waiting {previous deadline : Nat} (hl : h.Live f)
    (hx : h.generations[g]? = some x) (hst : x.stage = .waiting previous deadline)
    (hdone : (h.life previous).fullyStopped ≠ .pending) : g = f := by
  rcases Nat.lt_trichotomy g f with hlt | rfl | hgt
  · have hended := (hl.lineup.past g x hx hlt).1
    rw [hst] at hended
    cases hended
  · rfl
  · have hprev : previous = g - 1 := by
      rcases (hl.lineup.behind g x hx hgt).2 with hs | ⟨d, hs⟩
      · rw [hst] at hs
        cases hs
      · rw [hst] at hs
        cases hs
        rfl
    have hlt := (List.getElem?_eq_some_iff.1 hx).1
    have hlt' : previous < h.generations.length := by omega
    have hy : h.generations[previous]? = some h.generations[previous] :=
      List.getElem?_eq_getElem hlt'
    have hpending := (hl.lineup.ahead previous _ hy (by omega)).1
    rw [life_of_some (lives_of_some hy)] at hdone
    exact (hdone hpending).elim

theorem Settled.stepGeneration? (hi : h.Settled) (hp : h.Paired)
    (hs : h.stepGeneration? cfg g = some h') : h'.Settled := by
  rw [Harness.stepGeneration?, Option.bind_eq_bind, Option.bind_eq_some_iff] at hs
  obtain ⟨x, hx, hs⟩ := hs
  split at hs
  · next hst =>
    cases hs
    have hfront : ∀ f, h.Live f → g = f := fun f hl =>
      hl.lineup.eq_front hx (by simp [hst]) (by simp [hst]) (by simp [hst])
    exact hi.toKept.subscribe hp hx (hi.live_front hfront) (by rw [hst]; rfl)
  · next previous hst =>
    cases hs
    exact hi.enter_waiting hx hst
  · next previous deadline hst =>
    split at hs
    · next hdone =>
      cases hs
      have hfront : ∀ f, h.Live f → g = f := by
        intro f hl
        refine hl.front_of_waiting hx hst fun hpending => ?_
        rw [hpending] at hdone
        cases hdone
      exact hi.toKept.subscribe hp hx (hi.live_front hfront) (by rw [hst]; rfl)
    · cases hs
      exact hi.toKept.startFailed
    · split at hs
      · cases hs
        exact hi.toKept.startFailed
      · cases hs
  · next answerAt deadline error hst =>
    split at hs
    · split at hs
      · cases hs
        have hfront : ∀ f, h.Live f → g = f := fun f hl =>
          hl.lineup.eq_front hx (by simp [hst]) (by simp [hst]) (by simp [hst])
        exact hi.toKept.attach hx (hi.live_front hfront) (by rw [hst]; rfl)
      · cases hs
        exact hi.toKept.startFailed
    · split at hs
      · cases hs
        exact hi.toKept.startFailed
      · cases hs
  · next deadline hst =>
    have hfront : ∀ f, h.Live f → g = f := fun f hl =>
      hl.lineup.eq_front hx (by simp [hst]) (by simp [hst]) (by simp [hst])
    exact hi.route? hp hx (hi.live_front hfront) hst hs
  · cases hs

theorem settled_step {t : Task} (hi : h.Settled) (hp : h.Paired) (hs : h.step? cfg t = some h') :
    h'.Settled := by
  cases t with
  | wait i => exact hi.stepWait? hs
  | generation g => exact hi.stepGeneration? hp hs
  | claim c => exact hi.stepClaim? hp hs
  | callback c => exact hi.stepCallback? hs

/-! Acts. -/

/-- A message is delivered to the front, if that routes its deliveries, and else goes to the
backup consumers. -/
theorem Settled.publish {body : Body} (hi : h.Settled) : (h.publish body).1.Settled := by
  have hcases : h.broker.consumers = [] ∨ h.failure = none ∧ ∃ f x c deadline, h.Live f ∧
      h.generations[f]? = some x ∧ x.stage = .routing deadline ∧ h.broker.consumers = [c] := by
    by_cases hf : h.failure = none
    · obtain ⟨f, hl⟩ := hi.live hf
      cases hl.front with
      | rest _ hc _ _ _ => exact .inl hc
      | opening x _ _ _ hc _ _ => exact .inl hc
      | routing x c deadline hx hst hc _ _ _ _ =>
        exact .inr ⟨hf, f, x, c, deadline, hl, hx, hst, hc⟩
      | closing x c _ _ _ hc _ _ => exact .inl hc
    · exact .inl (hi.released (hi.disposed hf)).2.1
  rw [Harness.publish]
  rcases hcases with hc | ⟨hf, f, x, c, deadline, hl, hx, hst, hc⟩
  · rw [Broker.publish_of_nobody hc]
    exact hi.still ⟨rfl, rfl, rfl, rfl, rfl, fun _ _ hmem => hmem⟩ rfl rfl rfl
  · obtain ⟨c', hc', htag, hsink, hh, hfresh⟩ := hl.front.of_routing hx hst
    rw [hc] at hc'
    cases hc'
    have hlast := hl.active.last
    have hnew : h.ledger.lastObserved + 1 = h.broker.lastTag + 1 := by rw [hlast]
    have ha := @Active.deliver M h.broker h.ledger h.claims body hl.active
    have hfresh' := @Fresh.receive M h.ledger h.claims x.inbound body hfresh
      hl.active.sound.previous_le fun t ht => (hl.active.delivered t ht).2
    rw [hnew] at hfresh'
    rw [Broker.publish_of_single hc, hsink]
    refine ⟨⟨ha.toBooks, hi.queue, Broker.released_of_open hl.active.running,
      fun hne => (hne hf).elim⟩, fun _ => ⟨f, ?_, ?_⟩⟩
    · exact Standing.changeFront ⟨ha, hl.lineup, hl.latest⟩ fun _ => rfl
    · exact .routing _ c deadline (getElem?_changeGeneration hx) hst hc htag hsink hh hfresh'

theorem Settled.publishAll {bodies : List Body} (hi : h.Settled) :
    (h.publishAll bodies).1.Settled := by
  induction bodies generalizing h with
  | nil => exact hi
  | cons body rest ih => exact ih (Settled.publish hi)

/-- At most one consumer is attached or has its cancel held back. -/
theorem Live.single (hl : h.Live f) :
    h.broker.consumers = [] ∧ h.broker.held = [] ∨
      ∃ c, h.broker.consumers = [c] ∧ h.broker.held = [] ∨
        h.broker.consumers = [] ∧ h.broker.held = [c] := by
  cases hl.front with
  | rest _ hc hh _ _ => exact .inl ⟨hc, hh⟩
  | opening _ _ _ _ hc hh _ => exact .inl ⟨hc, hh⟩
  | routing _ c _ _ _ hc _ _ hh _ => exact .inr ⟨c, .inl ⟨hc, hh⟩⟩
  | closing _ c _ _ _ hc hh _ => exact .inr ⟨c, .inr ⟨hc, hh⟩⟩

/-- The cancel of the front that was held back is to be confirmed now. -/
theorem Live.released {b : Broker Nat} {c : Consumer Nat} (hl : h.Live f)
    (hh : h.broker.held = [c]) (hs : h.broker.Still b) (hd : b.disposed = h.broker.disposed)
    (hc : b.consumers = h.broker.consumers) (hheld : b.held = []) :
    c.sink = f ∧ ({ h with broker := b } : Harness M).Closing f := by
  cases hl.front with
  | rest _ _ hnone _ _ | opening _ _ _ _ _ hnone _ | routing _ _ _ _ _ _ _ _ hnone _ =>
    rw [hh] at hnone
    cases hnone
  | closing x c' hx hst hstop hcons hh' hsink =>
    rw [hh] at hh'
    cases hh'
    exact ⟨hsink, hl.toStanding.still hs hd, ⟨x, hx, hst, hstop⟩, hc.trans hcons, hheld⟩

/-- The broker confirms the cancel that it held back, if there is one. -/
theorem Settled.release {b : Broker Nat} (hi : h.Settled) (hs : h.broker.Still b)
    (hd : b.disposed = h.broker.disposed) (hc : b.consumers = h.broker.consumers)
    (hheld : b.held = []) :
    (h.broker.held.foldl (fun (h : Harness M) c => h.confirm cfg c)
      { h with broker := b }).Settled := by
  have hnone : h.broker.held = [] → (h.broker.held.foldl (fun (h : Harness M) c => h.confirm cfg c)
      { h with broker := b }).Settled := by
    intro hh
    have hi' : ({ h with broker := b } : Harness M).Settled :=
      hi.still hs hd hc (hheld.trans hh.symm)
    rw [hh]
    exact hi'
  by_cases hf : h.failure = none
  · obtain ⟨f, hl⟩ := hi.live hf
    rcases hl.single with ⟨_, hh⟩ | ⟨c, ⟨_, hh⟩ | ⟨_, hh⟩⟩
    · exact hnone hh
    · exact hnone hh
    · obtain ⟨hsink, hclosing⟩ := hl.released hh hs hd hc hheld
      rw [hh]
      exact hclosing.confirm (hi.toKept.still hs hd hl.active.running) hsink
  · exact hnone (hi.released (hi.disposed hf)).2.2

theorem Settled.failAll {consumers : List (Consumer Nat)} (hi : h.Settled) :
    (consumers.foldl (fun h _ => h.fail e) h).Settled := by
  induction consumers generalizing h with
  | nil => exact hi
  | cons c rest ih => exact ih hi.toKept.fail

theorem Settled.giveUp (hi : h.Settled) (hs : h.giveUp i = some h') : h'.Settled := by
  rw [Harness.giveUp, Option.bind_eq_bind, Option.bind_eq_some_iff] at hs
  obtain ⟨w, _, hs⟩ := hs
  split at hs
  · cases hs
    exact Settled.disposeIfUnowned (hi.quiet rfl rfl rfl)
  · cases hs
    exact Settled.disposeIfUnowned (hi.deregister.quiet rfl rfl rfl)
  all_goals
    first
    | cases hs
      exact hi.deregister.quiet rfl rfl rfl
    | cases hs
      exact hi
    | cases hs

theorem settled_act {a : Act M} {reply : BrokerReply} (hi : h.Settled)
    (hown : a.isForeign = false) (ha : h.act? cfg a = some (h', reply)) : h'.Settled := by
  cases a with
  | call description predicate =>
    rw [act?] at ha
    split at ha
    · cases ha
    · cases ha
      exact hi.quiet rfl rfl rfl
  | await i =>
    obtain ⟨h₁, hs, heq⟩ := Option.map_eq_some_iff.1 ha
    cases heq
    rw [Harness.await, Option.bind_eq_bind, Option.bind_eq_some_iff] at hs
    obtain ⟨w, _, hs⟩ := hs
    split at hs
    · cases hs
      exact hi.quiet rfl rfl rfl
    · cases hs
  | giveUp i =>
    obtain ⟨h₁, hs, heq⟩ := Option.map_eq_some_iff.1 ha
    cases heq
    exact hi.giveUp hs
  | publish body =>
    cases ha
    exact hi.publish
  | publishAll bodies =>
    cases ha
    exact hi.publishAll
  | release =>
    cases ha
    exact hi.release ⟨rfl, rfl, rfl, rfl, rfl, fun _ _ hmem => hmem⟩ rfl rfl rfl
  | failConnection reason =>
    cases ha
    exact hi.failAll
  | dispose =>
    rw [act?] at ha
    split at ha
    · cases ha
    · cases ha
      exact hi.dispose
  | drop =>
    cases ha
    exact Settled.disposeIfUnowned (hi.quiet rfl rfl rfl)
  | openGate =>
    cases ha
    exact hi.quiet rfl rfl rfl
  | hold | consumeBacklog =>
    cases ha
    exact hi.still ⟨rfl, rfl, rfl, rfl, rfl, fun _ _ hmem => hmem⟩ rfl rfl rfl
  | ack | nack | disposeBroker | notify => cases hown

theorem settled_initial : (initial cfg).Settled := by
  have hqueue : Queued (initial cfg).claims (initial cfg).permitQueue :=
    ⟨List.nodup_nil, fun c hc => (List.not_mem_nil hc).elim⟩
  refine ⟨⟨active_initial.toBooks, hqueue, ?_, ?_⟩, fun _ => ⟨0, ⟨active_initial,
    lineup_initial, rfl⟩, .rest rfl rfl rfl rfl fun t => TagSet.not_mem_empty t⟩⟩
  · intro hd
    cases hd
  · intro hf
    exact (hf rfl).elim

theorem settled_reachable (hr : ReachableAlone cfg h) : h.Settled := by
  induction hr with
  | initial => exact settled_initial
  | act a _ hown ha ih => exact settled_act ih hown ha
  | step t hr hs ih =>
    exact settled_step ih (paired_reachable (ReachableAlone.reachable hr)) hs
  | tick _ ih => exact ih.quiet rfl rfl rfl

end Intercept.Harness
