import Intercept.Proofs.Harness.Paired
import Intercept.Proofs.Harness.Run

/-! Waiters and generations are paired in every state: somebody waits exactly as long as a consumer
observes the queue, which only the current one does. -/
namespace Intercept

/-- The waiter that a wait registers. -/
def Wait.waiter {M : Type} (w : Wait M) (i : Nat) : Waiter M where
  id := i
  description := w.description
  predicate := w.predicate

namespace Harness
variable {M : Type} {cfg : Setup M} {h h' : Harness M} {g i : Nat}

/-! Waits. -/

theorem Paired.refuse {e : HarnessError} (hp : h.Paired) : (h.refuse i e).Paired :=
  Paired.disposeIfUnowned (hp.quiet rfl)

theorem Paired.accept (hp : h.Paired) : (h.accept i).Paired :=
  Paired.disposeIfUnowned (hp.quiet rfl)

/-- As long as the harness has not failed, there is a generation to join exactly if somebody
waits. -/
theorem Paired.joinable_eq_none_iff (hp : h.Paired) (hf : h.failure = none) :
    h.joinable = none ↔ h.waiters = [] := by
  rw [joinable, Option.filter_eq_none_iff]
  constructor
  · intro hnone
    apply Classical.byContradiction
    intro hw
    obtain ⟨l, hl, hobs⟩ := hp.observed hw
    obtain ⟨k, hk⟩ := List.getElem?_of_mem hl
    have hnot := hnone k (hp.current_observes k l hk hobs)
    rw [life_of_some hk] at hnot
    cases hs : l.state <;> simp_all [GenerationState.isObserving]
  · intro hw k hk
    have hlife := lives_of_lt (hp.current_lt k hk)
    have hmem := List.mem_of_getElem? hlife
    have hnobody : (h.life k).state.isObserving = false := by
      apply Bool.eq_false_iff.2
      intro hobs
      exact (hp.awaited _ hmem hobs).2 hw
    have herr := hp.unfailed hf _ hmem
    cases hs : (h.life k).state <;> simp_all [GenerationState.isObserving]

theorem register_of_failure {w : Wait M} {e : HarnessError} (hf : h.failure = some e) :
    h.register i w = h.refuse i e := by
  rw [register, hf]

theorem register_joins {w : Wait M} (hf : h.failure = none) (hj : h.joinable = some g) :
    h.register i w =
      ({ h with waiters := h.waiters ++ [w.waiter i] }).enterWait i (.starting g) := by
  have hj' : ({ h with waiters := h.waiters ++ [w.waiter i] } : Harness M).joinable = some g := hj
  simp only [register, hf]
  rw [hf] at hj'
  exact hj' ▸ rfl

theorem register_creates {w : Wait M} (hf : h.failure = none) (hj : h.joinable = none) :
    h.register i w =
      ({ h with
        waiters := h.waiters ++ [w.waiter i]
        generations := h.generations ++ [({ stage := .created h.current } : Generation)]
        current := some h.generations.length }).enterWait i (.starting h.generations.length) := by
  have hj' : ({ h with waiters := h.waiters ++ [w.waiter i] } : Harness M).joinable = none := hj
  simp only [register, hf]
  rw [hf] at hj'
  exact hj' ▸ rfl

/-- A new generation observes the queue for the first waiter. -/
theorem Paired.create {x : Generation} {w : Waiter M} (hp : h.Paired) (hf : h.failure = none)
    (hw : h.waiters = []) (hx : x.life = {}) :
    ({ h with
      waiters := h.waiters ++ [w]
      generations := h.generations ++ [x]
      current := some h.generations.length } : Harness M).Paired := by
  have hlives : ({ h with
      waiters := h.waiters ++ [w]
      generations := h.generations ++ [x]
      current := some h.generations.length } : Harness M).lives = h.lives ++ [x.life] := by
    rw [lives, List.map_append, List.map_singleton, lives]
  have hlen : h.lives.length = h.generations.length := List.length_map _
  have hnobody : ∀ l ∈ h.lives, l.state.isObserving = false := by
    intro l hl
    apply Bool.eq_false_iff.2
    intro hobs
    exact (hp.awaited l hl hobs).2 hw
  refine ⟨⟨?_, ?_, ?_⟩, ?_, ?_, ?_⟩
  · intro k hk
    have hkey : h.generations.length = k := Option.some.inj hk
    rw [hlives, List.length_append, List.length_singleton]
    omega
  · intro k l hk hobs
    rw [hlives, List.getElem?_append] at hk
    split at hk
    · rw [hnobody l (List.mem_of_getElem? hk)] at hobs
      cases hobs
    · next hle =>
      obtain ⟨hlt, _⟩ := List.getElem?_eq_some_iff.1 hk
      rw [List.length_singleton] at hlt
      have hkey : k = h.generations.length := by omega
      rw [hkey]
  · intro l hl
    rw [hlives, List.mem_append, List.mem_singleton] at hl
    rcases hl with hl | rfl
    · exact hp.consistent l hl
    · rw [hx]
      exact Lifecycle.consistent_initial
  · intro l _ _
    exact ⟨hf, by simp⟩
  · intro _
    refine ⟨x.life, ?_, ?_⟩
    · rw [hlives]
      exact List.mem_append_right _ (List.mem_singleton.2 rfl)
    · rw [hx]
      rfl
  · intro _ l hl
    rw [hlives, List.mem_append, List.mem_singleton] at hl
    rcases hl with hl | rfl
    · exact hp.unfailed hf l hl
    · simp [hx]

theorem Paired.register {w : Wait M} (hp : h.Paired) : (h.register i w).Paired := by
  cases hf : h.failure with
  | some e =>
    rw [register_of_failure hf]
    exact hp.refuse
  | none =>
    have hjoin := hp.joinable_eq_none_iff hf
    cases hj : h.joinable with
    | some g =>
      have hw : h.waiters ≠ [] := by
        intro hnil
        rw [hjoin.2 hnil] at hj
        cases hj
      rw [register_joins hf hj]
      exact hp.congr rfl rfl rfl (iff_of_false (by simp [enterWait, changeWait]) hw)
    | none =>
      rw [register_creates hf hj]
      exact (hp.create hf (hjoin.1 hj) rfl).quiet rfl

theorem Paired.deregister (hp : h.Paired) : (h.deregister i).Paired := by
  rw [Harness.deregister]
  split
  · exact hp.stopIfIdle_erase
  · exact hp

theorem Paired.expire (hp : h.Paired) : (h.expire cfg i).Paired := by
  rw [Harness.expire]
  split
  · exact hp.quiet rfl
  · exact hp.stopIfIdle_erase.quiet rfl

theorem Paired.stepWait? (hp : h.Paired) (hs : h.stepWait? cfg i = some h') : h'.Paired := by
  rw [Harness.stepWait?, Option.bind_eq_bind, Option.bind_eq_some_iff] at hs
  obtain ⟨w, _, hs⟩ := hs
  split at hs
  · cases hs
    exact hp.register
  · next g _ =>
    obtain ⟨started, _, hs⟩ := Option.bind_eq_some_iff.1 hs
    cases started with
    | ok =>
      cases hs
      exact hp.accept
    | error e =>
      cases hs
      exact hp.deregister.refuse
  · cases hs
    exact hp.quiet rfl
  · split at hs
    · cases hs
      exact hp.quiet rfl
    · split at hs
      · cases hs
        exact hp.expire
      · cases hs
  · obtain ⟨outcome, _, rfl⟩ := Option.map_eq_some_iff.1 hs
    exact hp.quiet rfl
  · cases hs

/-! Claims. -/

theorem Paired.returnPermit (hp : h.Paired) : h.returnPermit.Paired := by
  rw [Harness.returnPermit]
  split <;> exact hp.quiet rfl

theorem Paired.conclude {c : Nat} {x : Claim M} {result : Except Failure Unit} (hp : h.Paired) :
    (h.conclude cfg c x result).Paired := by
  unfold Harness.conclude
  refine Paired.returnPermit ?_
  cases result with
  | ok =>
    have hack := hp.ack cfg x.tag
    rcases hr : h.ack cfg x.tag with ⟨h₁, answer⟩
    rw [hr] at hack
    cases answer with
    | ok => exact (hack.settle x.tag .acked).quiet rfl
    | error e =>
      have hdone : (h₁.complete x.wait (.error (.transport e))).Paired :=
        hack.quiet rfl
      exact hdone.fail.quiet rfl
  | error failure => exact hp.rejectFailed.quiet rfl

theorem Paired.launch {c : Nat} {x : Claim M} (hp : h.Paired) : (h.launch c x).Paired := by
  rw [Harness.launch]
  split
  · exact hp.quiet rfl
  · rw [Harness.breakOff]
    exact Paired.returnPermit (hp.quiet rfl)

theorem Paired.stepClaim? {c : Nat} (hp : h.Paired) (hs : h.stepClaim? cfg c = some h') :
    h'.Paired := by
  rw [Harness.stepClaim?, Option.bind_eq_bind, Option.bind_eq_some_iff] at hs
  obtain ⟨x, _, hs⟩ := hs
  split at hs
  · cases hs
    rw [takePermit]
    split
    · exact Paired.launch (hp.quiet rfl)
    · exact hp.quiet rfl
  · cases hs
    exact hp.launch
  · cases hs
    exact hp.conclude
  · cases hs

theorem Paired.performAct {c : Nat} {x : Claim M} {actions : List Action} (hp : h.Paired) :
    (Harness.act h c x actions).Paired := by
  rw [Harness.act]
  split <;> exact hp.quiet rfl

theorem Paired.stepCallback? {c : Nat} (hp : h.Paired) (hs : h.stepCallback? c = some h') :
    h'.Paired := by
  rw [Harness.stepCallback?, Option.bind_eq_bind, Option.bind_eq_some_iff] at hs
  obtain ⟨x, _, hs⟩ := hs
  split at hs
  · cases hs
    exact Paired.performAct (hp.quiet rfl)
  · split at hs
    · cases hs
      exact hp.performAct
    · cases hs
  · split at hs
    · cases hs
      exact hp.performAct
    · cases hs
  · cases hs

/-! Generations. -/

theorem Paired.startFailed {e : HarnessError} (hp : h.Paired) : (h.startFailed g e).Paired :=
  hp.enter.failGeneration

theorem Paired.attach (hp : h.Paired) : (h.attach cfg g).Paired := by
  rw [Harness.attach]
  split
  · next broker _ =>
    have hb : ({ h with broker } : Harness M).Paired := hp.quiet rfl
    refine hb.enter.changeLife (fun l _ hl => hl.setStarted) ?_ ?_
    · intro l _
      exact Lifecycle.setStarted_isObserving
    · intro l _ he
      exact Lifecycle.setStarted_errored he
  · next broker e _ =>
    have hb : ({ h with broker } : Harness M).Paired := hp.quiet rfl
    exact hb.startFailed

theorem Paired.subscribe (hp : h.Paired) : (h.subscribe cfg g).Paired := by
  rw [Harness.subscribe]
  split
  · exact hp.enter.teardown
  · have hn : ({ h with subscriptions := h.subscriptions ++ [g] }.changeGeneration g fun x =>
        { x with consumer := cfg.consumerTag h.subscriptions.length } : Harness M).Paired :=
      hp.congr (lives_changeGeneration fun _ => rfl) rfl rfl Iff.rfl
    simp only
    split
    · exact hn.attach
    · exact hn.startFailed
    · exact hn.enter

theorem Paired.leave (hp : h.Paired) : (h.leave cfg g).Paired := by
  have hn : ({ h.enter g .ended with cancelCalls := h.cancelCalls + 1 } : Harness M).Paired :=
    hp.enter.quiet rfl
  rw [Harness.leave]
  simp only
  split
  · exact hn.fail
  · split
    · exact Paired.fail (hn.quiet rfl)
    · exact hn.quiet rfl
    · exact Paired.confirm (hn.quiet rfl)

/-- A generation that was not asked to stop is the current one. -/
theorem Paired.current_of_routing {x : Generation} (hp : h.Paired)
    (hx : h.generations[g]? = some x) (hs : x.life.stopRequested ≠ true) : h.current = some g := by
  have hl := lives_of_some hx
  have hcons := hp.consistent x.life (List.mem_of_getElem? hl)
  exact hp.current_observes g x.life hl (hcons.observing hs)

theorem Paired.expireAll (hp : h.Paired) (hc : h.current = some g) :
    (h.expireAll cfg g).Paired := by
  obtain ⟨waits, heq⟩ := foldl_complete h h.waiters fun w =>
    .error (w.timeoutError (w.report .unackedMessage cfg.settings.timeout cfg.context))
  have ho : ({ h with waits, waiters := [] } : Harness M).Ordered := hp.toOrdered.congr rfl rfl
  rw [Harness.expireAll]
  simp only [heq]
  exact ho.paired_stop hc rfl hp.unfailed

/-- After a delivery was offered, the current generation stops if no waiter is left. -/
theorem Paired.stop_matched (hp : h.Paired) (hg : h.current = some g) (hl : h'.lives = h.lives)
    (hc : h'.current = h.current) (hf : h'.failure = h.failure)
    (hw : h.waiters = [] → h'.waiters = []) :
    (if h'.waiters.isEmpty then h'.changeLife g (·.stop) else h').Paired := by
  split
  · next hempty =>
    refine (hp.toOrdered.congr hl hc).paired_stop (hc.trans hg) (List.isEmpty_iff.1 hempty) ?_
    rw [hf, hl]
    exact hp.unfailed
  · next hleft =>
    have hne : h'.waiters ≠ [] := fun hnil => hleft (List.isEmpty_iff.2 hnil)
    exact hp.congr hl hc hf (iff_of_false hne fun hnil => hne (hw hnil))

/-- What an offer of a delivery leads to: either it stays where it is, or a waiter leaves with a
claim on it. -/
inductive Offered (h : Harness M) (g : Nat) (d : Delivery) : Harness M → Prop
  | unclaimed (waiters : List (Waiter M)) (deadline : Option Nat) :
    (h.waiters = [] → waiters = []) →
    Offered h g d ({ h with waiters }.enter g (.routing deadline))
  | claimed (waiters : List (Waiter M)) (claim : Claim M) :
    (h.waiters = [] → waiters = []) → claim.tag = d.tag → claim.stage = .claimed →
    Offered h g d ({ h with
      waiters
      ledger := h.ledger.startProcessing d.tag
      claims := h.claims ++ [claim] }.enter g (.routing none))

theorem dispatch_offered (cfg : Setup M) (h : Harness M) (g : Nat) (deadline : Option Nat)
    (d : Delivery) :
    ∃ h₁, h.Offered g d h₁ ∧ h.dispatch cfg g deadline d =
      if h₁.waiters.isEmpty then h₁.changeLife g (·.stop) else h₁ := by
  rw [Harness.dispatch]
  cases hm : firstMatch h.waiters (cfg.format.decode? d.body) d.body with
  | mk waiters outcome =>
    have hnil : h.waiters = [] → waiters = [] := by
      intro hnil
      have hlen := @length_firstMatch M h.waiters (cfg.format.decode? d.body) d.body
      rw [hm, hnil] at hlen
      exact List.length_eq_zero_iff.1 hlen
    refine ⟨_, ?_, rfl⟩
    split
    · split
      · next i _ _ _ _ _ =>
        exact .claimed (waiters.eraseIdx i) _ (fun h => by rw [hnil h]; rfl) rfl rfl
      · exact .unclaimed waiters _ hnil
    · exact .unclaimed waiters _ hnil

theorem Paired.dispatch {deadline : Option Nat} {d : Delivery} (hp : h.Paired)
    (hg : h.current = some g) : (h.dispatch cfg g deadline d).Paired := by
  obtain ⟨h₁, hoffer, heq⟩ := dispatch_offered cfg h g deadline d
  rw [heq]
  cases hoffer with
  | unclaimed waiters deadline hnil => exact hp.stop_matched hg lives_enter rfl rfl hnil
  | claimed waiters claim hnil _ _ => exact hp.stop_matched hg lives_enter rfl rfl hnil

theorem Paired.route? {deadline : Option Nat} (hp : h.Paired)
    (hs : h.route? cfg g deadline = some h') : h'.Paired := by
  rw [Harness.route?, Option.bind_eq_bind, Option.bind_eq_some_iff] at hs
  obtain ⟨x, hx, hs⟩ := hs
  split at hs
  · cases hs
    exact hp.leave
  · next hstop =>
    have hg := hp.current_of_routing hx hstop
    split at hs
    · cases hs
      exact (hp.expireAll hg).leave
    · split at hs
      · next d rest _ =>
        cases hs
        have hn : (h.changeGeneration g fun x => { x with inbound := rest }).Paired :=
          hp.congr (lives_changeGeneration fun _ => rfl) rfl rfl Iff.rfl
        exact hn.dispatch hg
      · split at hs
        · cases hs
        · cases hs
          exact hp.leave

theorem Paired.stepGeneration? (hp : h.Paired) (hs : h.stepGeneration? cfg g = some h') :
    h'.Paired := by
  rw [Harness.stepGeneration?, Option.bind_eq_bind, Option.bind_eq_some_iff] at hs
  obtain ⟨x, _, hs⟩ := hs
  split at hs
  · cases hs
    exact hp.subscribe
  · cases hs
    exact hp.enter
  · split at hs
    · cases hs
      exact hp.subscribe
    · cases hs
      exact hp.startFailed
    · split at hs
      · cases hs
        exact hp.startFailed
      · cases hs
  · split at hs
    · split at hs
      · cases hs
        exact hp.attach
      · cases hs
        exact hp.startFailed
    · split at hs
      · cases hs
        exact hp.startFailed
      · cases hs
  · exact hp.route? hs
  · cases hs

theorem paired_step {t : Task} (hp : h.Paired) (hs : h.step? cfg t = some h') : h'.Paired := by
  cases t with
  | wait i => exact hp.stepWait? hs
  | generation g => exact hp.stepGeneration? hs
  | claim c => exact hp.stepClaim? hs
  | callback c => exact hp.stepCallback? hs

/-! Acts. -/

theorem Paired.receive {d : Delivery} (hp : h.Paired) : (h.receive g d).Paired :=
  hp.congr (lives_changeGeneration fun _ => rfl) rfl rfl Iff.rfl

theorem Paired.handle {event : ConsumerEvent} (hp : h.Paired) :
    (h.handle cfg g event).Paired := by
  cases event with
  | received tag body => exact hp.receive
  | cancelled => exact hp.teardown
  | failed e => exact hp.fail

theorem Paired.publish {body : Body} (hp : h.Paired) : (h.publish body).1.Paired := by
  rw [Harness.publish]
  split
  · exact hp.quiet rfl
  · exact Paired.receive (hp.quiet rfl)

theorem Paired.publishAll {bodies : List Body} (hp : h.Paired) :
    (h.publishAll bodies).1.Paired := by
  induction bodies generalizing h with
  | nil => exact hp
  | cons body rest ih => exact ih (Paired.publish hp)

theorem Paired.giveUp (hp : h.Paired) (hs : h.giveUp i = some h') : h'.Paired := by
  rw [Harness.giveUp, Option.bind_eq_bind, Option.bind_eq_some_iff] at hs
  obtain ⟨w, _, hs⟩ := hs
  split at hs
  · cases hs
    exact Paired.disposeIfUnowned (hp.quiet rfl)
  · cases hs
    exact Paired.disposeIfUnowned (hp.deregister.quiet rfl)
  all_goals
    first
    | cases hs
      exact hp.deregister.quiet rfl
    | cases hs
      exact hp
    | cases hs

theorem Paired.confirmAll {held : List (Consumer Nat)} (hp : h.Paired) :
    (held.foldl (·.confirm cfg ·) h).Paired := by
  induction held generalizing h with
  | nil => exact hp
  | cons c rest ih => exact ih hp.confirm

theorem Paired.failAll {consumers : List (Consumer Nat)} {e : HarnessError} (hp : h.Paired) :
    (consumers.foldl (fun h _ => h.fail e) h).Paired := by
  induction consumers generalizing h with
  | nil => exact hp
  | cons c rest ih => exact ih hp.fail

theorem paired_act {a : Act M} {reply : BrokerReply} (hp : h.Paired)
    (ha : h.act? cfg a = some (h', reply)) : h'.Paired := by
  cases a with
  | call description predicate =>
    rw [act?] at ha
    split at ha
    · cases ha
    · cases ha
      exact hp.quiet rfl
  | await i =>
    obtain ⟨h₁, hs, heq⟩ := Option.map_eq_some_iff.1 ha
    cases heq
    rw [Harness.await, Option.bind_eq_bind, Option.bind_eq_some_iff] at hs
    obtain ⟨w, _, hs⟩ := hs
    split at hs
    · cases hs
      exact hp.quiet rfl
    · cases hs
  | giveUp i =>
    obtain ⟨h₁, hs, heq⟩ := Option.map_eq_some_iff.1 ha
    cases heq
    exact hp.giveUp hs
  | publish body =>
    cases ha
    exact hp.publish
  | publishAll bodies =>
    cases ha
    exact hp.publishAll
  | release =>
    cases ha
    exact Paired.confirmAll (hp.quiet rfl)
  | failConnection reason =>
    cases ha
    exact hp.failAll
  | notify consumer event =>
    obtain ⟨_, _, ha⟩ := Option.bind_eq_some_iff.1 ha
    obtain ⟨g, _, ha⟩ := Option.bind_eq_some_iff.1 ha
    obtain ⟨_, _, ha⟩ := Option.bind_eq_some_iff.1 ha
    cases ha
    exact hp.handle
  | dispose =>
    rw [act?] at ha
    split at ha
    · cases ha
    · cases ha
      exact hp.dispose
  | drop =>
    cases ha
    exact Paired.disposeIfUnowned (hp.quiet rfl)
  | openGate | hold | consumeBacklog | ack | nack | disposeBroker =>
    cases ha
    exact hp.quiet rfl

theorem paired_initial : (initial cfg).Paired := by
  have hcurrent : (initial cfg).current = none := rfl
  have hlives : ∀ l, l ∉ (initial cfg).lives := fun l => List.not_mem_nil
  refine paired_of_nobody ?_ ?_ ?_ rfl ?_
  · intro g hg
    rw [hcurrent] at hg
    cases hg
  · exact fun l hl => (hlives l hl).elim
  · exact fun l hl => (hlives l hl).elim
  · exact fun _ l hl => (hlives l hl).elim

theorem paired_reachable (hr : Reachable cfg h) : h.Paired := by
  induction hr with
  | initial => exact paired_initial
  | act a _ _ ha ih => exact paired_act ih ha
  | step t _ hs ih => exact paired_step ih hs
  | tick _ ih => exact ih.quiet rfl

/-! What the pairing means. -/

/-- The current generation observes the queue. -/
theorem Paired.currentState_iff (hp : h.Paired) :
    h.currentState = some .initial ∨ h.currentState = some .started ↔
      ∃ l ∈ h.lives, l.state.isObserving = true := by
  constructor
  · intro hs
    cases hc : h.current with
    | none => simp [currentState, hc] at hs
    | some g =>
      refine ⟨h.life g, List.mem_of_getElem? (lives_of_lt (hp.current_lt g hc)), ?_⟩
      simpa [currentState, hc, GenerationState.isObserving_iff] using hs
  · rintro ⟨l, hl, hobs⟩
    obtain ⟨k, hk⟩ := List.getElem?_of_mem hl
    have hc := hp.current_observes k l hk hobs
    simpa [currentState, hc, life_of_some hk] using GenerationState.isObserving_iff.1 hobs

theorem length_dispose : h.dispose.generations.length = h.generations.length := by
  rw [Harness.dispose]
  split
  · rfl
  · cases hc : h.current with
    | none =>
      obtain ⟨waits, heq⟩ := shutDown_eq { h with failure := some .disposed } (.error .cancelled)
      simp only [heq]
    | some g =>
      obtain ⟨waits, heq⟩ := shutDown_eq
        { h.changeLife g (·.stop) with failure := some .disposed } (.error .cancelled)
      simp only [heq]
      exact List.length_modify _ _ _

theorem length_refuse {e : HarnessError} :
    (h.refuse i e).generations.length = h.generations.length := by
  rw [Harness.refuse, Harness.disposeIfUnowned]
  split
  · exact length_dispose
  · rfl

/-- A registration creates a generation for the first waiter, and never for another one. -/
theorem Paired.register_creates_iff (hp : h.Paired) (w : Wait M) :
    h.generations.length < (h.register i w).generations.length ↔
      h.failure = none ∧ h.waiters = [] := by
  cases hf : h.failure with
  | some e =>
    rw [register_of_failure hf, length_refuse]
    simp
  | none =>
    rw [← hp.joinable_eq_none_iff hf]
    cases hj : h.joinable with
    | some g =>
      rw [register_joins hf hj]
      simp [enterWait, changeWait]
    | none =>
      rw [register_creates hf hj]
      simp [enterWait, changeWait]

/-- As long as the harness has not failed, somebody waits exactly if the current generation is
observing the queue or about to; every other generation has ended its observing. After a failure
nobody waits, and nothing observes the queue. So a generation is created exactly for a waiter that
comes while nobody else waits. -/
theorem waiters_paired_with_current_generation (hr : Reachable cfg h) :
    (∀ g, h.current = some g → g < h.generations.length) ∧
    (h.failure = none →
      (h.waiters ≠ [] ↔ h.currentState = some .initial ∨ h.currentState = some .started)) ∧
    (∀ g x, h.generations[g]? = some x → h.current ≠ some g →
      x.life.state = .stopped ∨ x.life.state = .complete ∨ x.life.state = .errored) ∧
    (h.failure ≠ none →
      h.waiters = [] ∧ h.currentState ≠ some .initial ∧ h.currentState ≠ some .started) ∧
    ∀ i w, h.generations.length < (h.register i w).generations.length ↔
      h.failure = none ∧ h.waiters = [] := by
  have hp := paired_reachable hr
  have hlen : h.lives.length = h.generations.length := List.length_map _
  refine ⟨?_, ?_, ?_, ?_, fun i w => hp.register_creates_iff w⟩
  · intro g hg
    rw [← hlen]
    exact hp.current_lt g hg
  · intro hf
    rw [hp.currentState_iff]
    exact ⟨hp.observed, fun ⟨l, hl, hobs⟩ => (hp.awaited l hl hobs).2⟩
  · intro g x hx hne
    have hl := lives_of_some hx
    have hobs : x.life.state.isObserving ≠ true := fun hobs =>
      hne (hp.current_observes g x.life hl hobs)
    cases hs : x.life.state <;> simp_all [GenerationState.isObserving]
  · intro hf
    obtain ⟨hn, hw⟩ := hp.nobody_of_failure hf
    have hnot := mt hp.currentState_iff.1 fun ⟨l, hl, hobs⟩ => by
      rw [hn l hl] at hobs
      cases hobs
    exact ⟨hw, fun hs => hnot (.inl hs), fun hs => hnot (.inr hs)⟩

theorem paired_after_first_call : ∃ h : Harness Unit, Reachable .bare h ∧
    h.failure = none ∧ h.waiters ≠ [] ∧ h.currentState = some .initial ∧
    ∀ i w, ¬ h.generations.length < (h.register i w).generations.length := by
  have hcalled : Reachable .bare _ :=
    .act (.call "a message" fun _ => .holds true) .initial trivial rfl
  have hr : Reachable .bare _ := .step (.wait 0) hcalled rfl
  obtain ⟨_, hpaired, _, _, hcreates⟩ := waiters_paired_with_current_generation hr
  have hw := (hpaired rfl).2 (.inl rfl)
  exact ⟨_, hr, rfl, hw, rfl, fun i w hlt => hw ((hcreates i w).1 hlt).2⟩

end Harness
end Intercept
