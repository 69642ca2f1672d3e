import Intercept.Proofs.Harness.Live
import Intercept.Proofs.Harness.Pairing

/-! Waits and claims keep the books of a harness: whatever way a callback ends, its delivery is
settled once. -/
namespace Intercept.Harness
variable {M : Type} {cfg : Setup M} {h h' : Harness M} {c f g i : Nat} {x : Claim M}
  {stage : ClaimStage} {e : HarnessError}

/-! Waits. -/

/-- A start or a stop of a generation does not concern the books. -/
theorem Live.changeLife {φ : Lifecycle → Lifecycle} (hl : h.Live f)
    (hφ : Lifecycle.Steady φ) : (h.changeLife g φ).Live f :=
  ⟨⟨hl.active, hl.lineup.changeLife hφ, (List.length_modify _ _ _).trans hl.latest⟩,
    hl.front.changeLife hφ⟩

theorem Settled.changeLife {φ : Lifecycle → Lifecycle} (hi : h.Settled)
    (hφ : Lifecycle.Steady φ) : (h.changeLife g φ).Settled := by
  refine ⟨hi.toKept.quiet rfl, fun hf => ?_⟩
  obtain ⟨f, hl⟩ := hi.live hf
  exact ⟨f, hl.changeLife hφ⟩

theorem Settled.stopIfIdle (hi : h.Settled) : h.stopIfIdle.Settled := by
  rw [Harness.stopIfIdle]
  split
  · exact hi.changeLife Lifecycle.steady_stop
  · exact hi

theorem Settled.deregister (hi : h.Settled) : (h.deregister i).Settled := by
  rw [Harness.deregister]
  split
  · exact Settled.stopIfIdle (hi.quiet rfl rfl rfl)
  · exact hi

theorem Settled.refuse (hi : h.Settled) : (h.refuse i e).Settled :=
  Settled.disposeIfUnowned (hi.quiet rfl rfl rfl)

theorem Settled.accept (hi : h.Settled) : (h.accept i).Settled :=
  Settled.disposeIfUnowned (hi.quiet rfl rfl rfl)

theorem Settled.register {w : Wait M} (hi : h.Settled) : (h.register i w).Settled := by
  cases hf : h.failure with
  | some e =>
    rw [register_of_failure hf]
    exact hi.refuse
  | none =>
    cases hj : h.joinable with
    | some g =>
      rw [register_joins hf hj]
      exact hi.quiet rfl rfl rfl
    | none =>
      rw [register_creates hf hj]
      refine ⟨hi.toKept.quiet rfl, fun _ => ?_⟩
      obtain ⟨f, hl⟩ := hi.live hf
      refine ⟨f, ⟨hl.active, hl.lineup.append rfl rfl fun hlt => ?_, ?_⟩,
        hl.front.append rfl rfl⟩
      · have hlatest := hl.latest
        cases hc : h.current with
        | none =>
          rw [hc] at hlatest
          change h.generations.length = 0 at hlatest
          omega
        | some k =>
          rw [hc] at hlatest
          change h.generations.length = k + 1 at hlatest
          rw [hlatest]
          rfl
      · exact List.length_append

theorem Settled.expire (hi : h.Settled) : (h.expire cfg i).Settled := by
  rw [Harness.expire]
  split
  · exact hi.quiet rfl rfl rfl
  · have hleft : ({ h with waiters := h.waiters.eraseP (·.id == i) } : Harness M).Settled :=
      hi.quiet rfl rfl rfl
    exact hleft.stopIfIdle.quiet rfl rfl rfl

theorem Settled.stepWait? (hi : h.Settled) (hs : h.stepWait? cfg i = some h') : h'.Settled := by
  rw [Harness.stepWait?, Option.bind_eq_bind, Option.bind_eq_some_iff] at hs
  obtain ⟨w, _, hs⟩ := hs
  split at hs
  · cases hs
    exact hi.register
  · next g _ =>
    obtain ⟨started, _, hs⟩ := Option.bind_eq_some_iff.1 hs
    cases started with
    | ok =>
      cases hs
      exact hi.accept
    | error e =>
      cases hs
      exact hi.deregister.refuse
  · cases hs
    exact hi.quiet rfl rfl rfl
  · split at hs
    · cases hs
      exact hi.quiet rfl rfl rfl
    · split at hs
      · cases hs
        exact hi.expire
      · cases hs
  · obtain ⟨outcome, _, rfl⟩ := Option.map_eq_some_iff.1 hs
    exact hi.quiet rfl rfl rfl
  · cases hs

/-! A claim on its way to its callback. -/

theorem Queued.not_mem {claims : List (Claim M)} {queue : List Nat} (hq : Queued claims queue)
    (hx : claims[c]? = some x) (hs : x.stage ≠ .queued) : c ∉ queue := by
  intro hc
  obtain ⟨y, hy, hqueued⟩ := hq.queued c hc
  rw [hx] at hy
  cases hy
  exact hs hqueued

theorem Queued.restage {claims : List (Claim M)} {queue : List Nat} (hq : Queued claims queue)
    (hc : c ∉ queue) : Queued (restage claims c stage) queue := by
  refine ⟨hq.distinct, fun k hk => ?_⟩
  obtain ⟨y, hy, hqueued⟩ := hq.queued k hk
  have hne : c ≠ k := by
    rintro rfl
    exact hc hk
  exact ⟨y, (List.getElem?_modify_ne _ _ hne).trans hy, hqueued⟩

/-- A claim joins the queue. -/
theorem Queued.push {claims : List (Claim M)} {queue : List Nat} (hq : Queued claims queue)
    (hx : claims[c]? = some x) (hc : c ∉ queue) :
    Queued (Intercept.restage claims c .queued) (queue ++ [c]) := by
  have hq' : Queued (Intercept.restage claims c .queued) queue := hq.restage hc
  refine ⟨hq'.distinct.append (List.nodup_singleton c) (by simpa using hc), fun k hk => ?_⟩
  rcases List.mem_append.1 hk with hk | hk
  · exact hq'.queued k hk
  · rw [List.mem_singleton.1 hk]
    refine ⟨{ x with stage := .queued }, ?_, rfl⟩
    rw [Intercept.restage, List.getElem?_modify_eq, hx]
    rfl

/-- The first claim of the queue gets its turn. -/
theorem Queued.pop {claims : List (Claim M)} {rest : List Nat} (hq : Queued claims (c :: rest)) :
    ∃ x, claims[c]? = some x ∧ x.stage = .queued ∧
      ∀ stage, Queued (Intercept.restage claims c stage) rest := by
  obtain ⟨hc, hdistinct⟩ := List.nodup_cons.1 hq.distinct
  obtain ⟨x, hx, hqueued⟩ := hq.queued c (List.mem_cons_self ..)
  have hrest : Queued claims rest :=
    ⟨hdistinct, fun j hj => hq.queued j (List.mem_cons_of_mem c hj)⟩
  exact ⟨x, hx, hqueued, fun stage => hrest.restage hc⟩

/-- A claim gets to another stage, with its delivery as open as before. -/
theorem Settled.restage {queue : List Nat} (hi : h.Settled) (hx : h.claims[c]? = some x)
    (hopen : stage.isOpen = x.stage.isOpen) (hq : Queued (restage h.claims c stage) queue) :
    ({ h with claims := restage h.claims c stage, permitQueue := queue } :
      Harness M).Settled := by
  refine ⟨⟨hi.books.restage hx fun ho => hopen ▸ ho, hq, hi.released, hi.disposed⟩,
    fun hf => ?_⟩
  obtain ⟨f, hl⟩ := hi.live hf
  exact ⟨f, ⟨hl.active.restage hx hopen, hl.lineup, hl.latest⟩,
    hl.front.congr rfl rfl rfl rfl claimTags_restage fun _ hnone => hnone⟩

theorem Settled.enterClaim (hi : h.Settled) (hx : h.claims[c]? = some x)
    (hs : x.stage ≠ .queued) (hopen : stage.isOpen = x.stage.isOpen) :
    (h.enterClaim c stage).Settled := by
  have hc := hi.queue.not_mem hx hs
  exact (hi.restage hx hopen (hi.queue.restage hc)).quiet rfl rfl rfl

theorem Settled.returnPermit (hi : h.Settled) : h.returnPermit.Settled := by
  rw [Harness.returnPermit]
  split
  · exact hi.quiet rfl rfl rfl
  · next k rest hqueue =>
    obtain ⟨y, hy, hqueued, hrest⟩ := (hqueue ▸ hi.queue : Queued h.claims (k :: rest)).pop
    have hopen : ClaimStage.granted.isOpen = y.stage.isOpen := by rw [hqueued]; rfl
    exact (hi.restage hy hopen (hrest .granted)).quiet rfl rfl rfl

/-- A claim that breaks off leaves its delivery as open as it was. -/
theorem Settled.breakOff (hi : h.Settled) (hx : h.claims[c]? = some x) (hs : x.stage ≠ .queued)
    (hopen : x.stage.isOpen = true) : (h.breakOff c x).Settled := by
  have hcompleted : (h.complete x.wait (.error .cancelled)).Settled := hi.quiet rfl rfl rfl
  have hbroken : ((h.complete x.wait (.error .cancelled)).enterClaim c .brokenOff).Settled :=
    hcompleted.enterClaim hx hs hopen.symm
  exact hbroken.returnPermit

theorem Settled.launch (hi : h.Settled) (hx : h.claims[c]? = some x) (hs : x.stage ≠ .queued)
    (hopen : x.stage.isOpen = true) : (h.launch c x).Settled := by
  rw [Harness.launch]
  split
  · exact hi.enterClaim hx hs hopen.symm
  · exact hi.breakOff hx hs hopen

theorem Settled.takePermit (hi : h.Settled) (hx : h.claims[c]? = some x)
    (hs : x.stage = .claimed) : (h.takePermit c x).Settled := by
  have hne : x.stage ≠ .queued := by simp [hs]
  have hopen : x.stage.isOpen = true := by rw [hs]; rfl
  rw [Harness.takePermit]
  split
  · have hfree : ({ h with permits := h.permits - 1 } : Harness M).Settled := hi.quiet rfl rfl rfl
    exact hfree.launch hx hne hopen
  · have hc := hi.queue.not_mem hx hne
    have hsame : ClaimStage.queued.isOpen = x.stage.isOpen := hopen.symm
    exact (hi.restage hx hsame (hi.queue.push hx hc)).quiet rfl rfl rfl

/-- A callback goes on. -/
theorem Settled.performAct {actions : List Action} {callback : CallbackStage} (hi : h.Settled)
    (hx : h.claims[c]? = some x) (hs : x.stage = .running callback) :
    (Harness.act h c x actions).Settled := by
  have hentered : (h.enterClaim c (.running (perform h.clock h.openGates actions))).Settled :=
    hi.enterClaim hx (by simp [hs]) (by rw [hs]; rfl)
  rw [Harness.act]
  split
  · exact hentered.quiet rfl rfl rfl
  · exact hentered

theorem Settled.stepCallback? (hi : h.Settled) (hs : h.stepCallback? c = some h') :
    h'.Settled := by
  rw [Harness.stepCallback?, Option.bind_eq_bind, Option.bind_eq_some_iff] at hs
  obtain ⟨x, hx, hs⟩ := hs
  split at hs
  · next hst =>
    cases hs
    have hnoted : (h.noteCall (.began x.tag x.message)).Settled :=
      hi.quiet rfl rfl rfl
    exact hnoted.performAct hx hst
  · next hst =>
    split at hs
    · cases hs
      exact hi.performAct hx hst
    · cases hs
  · next hst =>
    split at hs
    · cases hs
      exact hi.performAct hx hst
    · cases hs
  · cases hs

/-! A callback ends. -/

theorem enterClaim_foldl {waiters : List (Waiter M)} {outcome : Outcome M} :
    (waiters.foldl (fun h w => h.complete w.id outcome) h).enterClaim c stage =
      waiters.foldl (fun h w => h.complete w.id outcome) (h.enterClaim c stage) := by
  induction waiters generalizing h with
  | nil => rfl
  | cons w rest ih => exact ih

theorem enterClaim_shutDown {outcome : Outcome M} :
    (h.shutDown outcome).enterClaim c stage = (h.enterClaim c stage).shutDown outcome := by
  have hw : (h.enterClaim c stage).waiters = h.waiters := rfl
  rw [shutDown, shutDown, hw, ← enterClaim_foldl]
  rfl

/-- A failure does not look at the claims. -/
theorem enterClaim_fail : (h.fail e).enterClaim c stage = (h.enterClaim c stage).fail e := by
  have hf : (h.enterClaim c stage).failure = h.failure := rfl
  have hc : (h.enterClaim c stage).current = h.current := rfl
  rw [fail, fail, hf]
  cases h.failure with
  | some _ => rfl
  | none =>
    rw [hc]
    cases h.current with
    | none => exact enterClaim_shutDown
    | some g => exact enterClaim_shutDown

/-- A claim is done, and its outcome noted, as the harness fails. -/
theorem Kept.finish_fail {l : Ledger} (hk : h.Kept) (hx : h.claims[c]? = some x)
    (hs : x.stage ≠ .queued) (hb : Books h.broker l (Intercept.restage h.claims c .settled)) :
    ((({ h with ledger := l } : Harness M).fail e).enterClaim c .settled).Settled := by
  rw [enterClaim_fail]
  exact Kept.fail ⟨hb, hk.queue.restage (hk.queue.not_mem hx hs), hk.released, hk.disposed⟩

/-- A claim is done, and its delivery settled at the broker or left to the next teardown. -/
theorem Settled.finish {b : Broker Nat} {l : Ledger} (hi : h.Settled) (hx : h.claims[c]? = some x)
    (hs : x.stage ≠ .queued) (hf : h.failure = none)
    (ha : Active b l (Intercept.restage h.claims c .settled))
    (hc : b.consumers = h.broker.consumers) (hh : b.held = h.broker.held)
    (hprev : l.previouslyNackedThrough = h.ledger.previouslyNackedThrough)
    (hlast : l.lastObserved = h.ledger.lastObserved)
    (hnack : ∀ f, h.Live f → f = h.generations.length → (∀ t, t ∉ h.ledger.shouldNack) →
      ∀ t, t ∉ l.shouldNack) :
    (({ h with broker := b, ledger := l } : Harness M).enterClaim c .settled).Settled := by
  refine ⟨⟨ha.toBooks, hi.queue.restage (hi.queue.not_mem hx hs), ?_, ?_⟩, fun _ => ?_⟩
  · exact Broker.released_of_open ha.running
  · exact fun hne => (hne hf).elim
  · obtain ⟨f, hl⟩ := hi.live hf
    exact ⟨f, ⟨ha, hl.lineup, hl.latest⟩,
      hl.front.congr hc hh hprev hlast claimTags_restage (hnack f hl)⟩

/-- An acknowledgement fails, and nothing happens at the broker, or it settles its tag. -/
theorem ack_cases (cfg : Setup M) (hi : h.Settled) {tag : Nat} (ht : tag ∈ h.ledger.processing) :
    (∃ e, h.ack cfg tag = (h, .error e)) ∨ (h.failure = none ∧ ∃ b,
      h.ack cfg tag = ({ h with broker := b }, .ok ()) ∧
        Broker.Settles [] (· = tag) h.broker b ∧ b.acked = h.broker.acked ++ [tag] ∧
        b.nacked = h.broker.nacked ∧ b.operations = h.broker.operations ++ [.ack tag]) := by
  rw [ack]
  cases cfg.connection.ack tag with
  | some e => exact .inl ⟨e, rfl⟩
  | none =>
    by_cases hd : h.broker.disposed = true
    · refine .inl ⟨.closed, ?_⟩
      simp only [Broker.ack_of_disposed hd]
    · have hf := hi.toKept.unfailed (Bool.eq_false_iff.2 hd)
      obtain ⟨f, hl⟩ := hi.live hf
      obtain ⟨b, hb, hs⟩ := Broker.ack_of_unsettled (Bool.eq_false_iff.2 hd)
        ((hl.active.tracks tag).2 (.inl ht))
      refine .inr ⟨hf, b, ?_, hs⟩
      simp only [hb]

/-- So does a reject. -/
theorem nack_cases (cfg : Setup M) (hi : h.Settled) {tag : Nat} {l : Ledger}
    (ht : tag ∈ h.ledger.processing) :
    (∃ e, ({ h with ledger := l } : Harness M).nack cfg tag false =
      ({ h with ledger := l }, .error e)) ∨ (h.failure = none ∧ ∃ b,
      ({ h with ledger := l } : Harness M).nack cfg tag false =
        ({ h with ledger := l, broker := b }, .ok ()) ∧
        Broker.Settles [(tag, false)] (fun u => Broker.covers tag false u = true) h.broker b ∧
        b.acked = h.broker.acked ∧
        (∀ u, u ∈ b.nacked ↔ u ∈ h.broker.nacked ∨
          u ∈ h.broker.tags ∧ Broker.covers tag false u = true) ∧
        b.operations = h.broker.operations ++ [.nack tag false]) := by
  rw [nack]
  cases cfg.connection.nack tag with
  | some e => exact .inl ⟨e, rfl⟩
  | none =>
    by_cases hd : h.broker.disposed = true
    · refine .inl ⟨.closed, ?_⟩
      simp only [Broker.nack_of_disposed hd]
    · have hf := hi.toKept.unfailed (Bool.eq_false_iff.2 hd)
      obtain ⟨f, hl⟩ := hi.live hf
      obtain ⟨b, hb, hs⟩ := @Broker.nack_of_unsettled Nat h.broker tag false
        (Bool.eq_false_iff.2 hd) ((hl.active.tracks tag).2 (.inl ht))
      refine .inr ⟨hf, b, ?_, hs⟩
      simp only [hb]

/-- While the current generation is not over, it is at the front or behind it. -/
theorem Live.not_rest (hl : h.Live f) (ht : (h.currentState.map (·.isTerminal)).getD true = false) :
    f ≠ h.generations.length := by
  intro hf
  rcases hl.current_last with ⟨hc, _⟩ | ⟨k, x, hc, hlen, hx⟩
  · rw [currentState, hc] at ht
    cases ht
  · have hdone := (hl.lineup.past k x hx (by omega)).2
    rw [currentState, hc] at ht
    simp [life_of_some (lives_of_some hx), hdone, GenerationState.isTerminal] at ht

/-- Once the current generation is over, all are. -/
theorem Live.nobody_at_front (hl : h.Live f) (hp : h.Paired) (hfail : h.failure = none)
    (ht : (h.currentState.map (·.isTerminal)).getD true = true) : h.generations[f]? = none := by
  cases hx : h.generations[f]? with
  | none => rfl
  | some x =>
    have hlt := (List.getElem?_eq_some_iff.1 hx).1
    rcases hl.current_last with ⟨_, hlen⟩ | ⟨k, y, hc, hlen, hy⟩
    · omega
    · have hlife := lives_of_some hy
      have hnot := (hl.lineup.ahead k y hy (by omega)).2
      have herr := hp.unfailed hfail _ (List.mem_of_getElem? hlife)
      rw [currentState, hc] at ht
      simp only [Option.map_some, Option.getD_some, life_of_some hlife] at ht
      cases hs : y.life.state <;> simp_all [GenerationState.isTerminal]

theorem Live.all_ended {x : Generation} (hl : h.Live f) (hp : h.Paired) (hfail : h.failure = none)
    (ht : (h.currentState.map (·.isTerminal)).getD true = true)
    (hx : h.generations[g]? = some x) : x.stage = .ended := by
  have hend := List.getElem?_eq_none_iff.1 (hl.nobody_at_front hp hfail ht)
  have hlt := (List.getElem?_eq_some_iff.1 hx).1
  exact (hl.lineup.past g x hx (by omega)).1

/-- Once the current generation is over, nothing is left to reject. -/
theorem Live.rest (hl : h.Live f) (hp : h.Paired) (hfail : h.failure = none)
    (ht : (h.currentState.map (·.isTerminal)).getD true = true) :
    h.ledger.previouslyNackedThrough = h.ledger.lastObserved ∧ ∀ t, t ∉ h.ledger.shouldNack := by
  have key : ∀ x, h.generations[f]? ≠ some x := by
    intro x hx
    rw [hl.nobody_at_front hp hfail ht] at hx
    cases hx
  cases hl.front with
  | rest _ _ _ hle hnone => exact ⟨hle, hnone⟩
  | opening x hx _ _ _ _ _ => exact (key x hx).elim
  | routing x _ _ hx _ _ _ _ _ _ => exact (key x hx).elim
  | closing x _ hx _ _ _ _ _ => exact (key x hx).elim

theorem settle_of_ok {tag : Nat} {settlement : Settlement} {l : Ledger}
    (he : h.ledger.endProcessing tag settlement = .ok l) :
    h.settle tag settlement = { h with ledger := l } := by
  rw [settle, he]

/-- The callback of a claim failed. -/
theorem Settled.rejectFailed (hi : h.Settled) (hp : h.Paired) (hx : h.claims[c]? = some x)
    (hs : x.stage ≠ .queued) (hopen : x.stage.isOpen = true) :
    ((h.rejectFailed cfg x.tag).enterClaim c .settled).Settled := by
  have hmem := List.mem_of_getElem? hx
  have ht := hi.books.unfinished x hmem hopen
  rw [Harness.rejectFailed]
  split
  · next hterminal =>
    obtain ⟨l, hl', he⟩ := hi.books.endProcessing hmem hopen .alreadyNacked
    rw [settle_of_ok hl']
    rcases nack_cases cfg hi (l := l) ht with ⟨e, hnack⟩ | ⟨hf, b, hnack, hset, _⟩
    · rw [hnack]
      exact hi.toKept.finish_fail hx hs (hi.books.finish hx he)
    · obtain ⟨f, hl⟩ := hi.live hf
      obtain ⟨hrest, _⟩ := hl.rest hp hf hterminal
      have hle : x.tag ≤ h.ledger.previouslyNackedThrough := by
        rw [hrest]
        exact (hi.books.delivered x.tag (List.mem_map_of_mem hmem)).2
      rw [hnack]
      refine hi.finish hx hs hf (hl.active.finish_now hx (.inr ⟨rfl, hle⟩) he hset ?_ ?_)
        hset.consumers hset.held he.previous he.lastObserved ?_
      · intro u
        exact beq_iff_eq
      · intro r hr
        exact ⟨List.mem_singleton.1 hr, hle⟩
      · intro _ _ _ hnone t ht
        exact hnone t (he.shouldNack_of_ne (by simp) ht)
  · next hrunning =>
    obtain ⟨l, hl', he⟩ := hi.books.endProcessing hmem hopen .shouldNack
    rw [settle_of_ok hl']
    by_cases hf : h.failure = none
    · obtain ⟨f, hl⟩ := hi.live hf
      refine hi.finish hx hs hf (hl.active.finish_later hx he) rfl rfl he.previous
        he.lastObserved ?_
      intro f' hl' hrest
      exact (hl'.not_rest (Bool.eq_false_iff.2 hrunning) hrest).elim
    · exact Kept.settled_of_failure ⟨hi.books.finish hx he,
        hi.queue.restage (hi.queue.not_mem hx hs), hi.released, hi.disposed⟩ hf

theorem Settled.conclude {result : Except Failure Unit} (hi : h.Settled) (hp : h.Paired)
    (hx : h.claims[c]? = some x) (hst : x.stage = .running (.returned result)) :
    (h.conclude cfg c x result).Settled := by
  have hs : x.stage ≠ .queued := by simp [hst]
  have hopen : x.stage.isOpen = true := by rw [hst]; rfl
  have hmem := List.mem_of_getElem? hx
  have ht := hi.books.unfinished x hmem hopen
  unfold Harness.conclude
  refine Settled.returnPermit ?_
  cases result with
  | ok =>
    rcases ack_cases cfg hi ht with ⟨e, hack⟩ | ⟨hf, b, hack, hset, _⟩
    · simp only [hack]
      have hk : (h.complete x.wait (.error (.transport e))).Kept := hi.toKept.quiet rfl
      exact hk.finish_fail hx hs (hi.books.restage hx (by simp [ClaimStage.isOpen]))
    · obtain ⟨f, hl⟩ := hi.live hf
      obtain ⟨l, hl', he⟩ := hi.books.endProcessing hmem hopen .acked
      have hsettle : ({ h with broker := b } : Harness M).settle x.tag .acked =
          { h with broker := b, ledger := l } := settle_of_ok hl'
      have hdone := hi.finish hx hs hf
        (hl.active.finish_now hx (.inl rfl) he hset (fun u => Iff.rfl) (by simp)) hset.consumers
        hset.held he.previous he.lastObserved fun _ _ _ hnone t ht =>
          hnone t (he.shouldNack_of_ne (by simp) ht)
      simp only [hack, hsettle]
      exact hdone.quiet rfl rfl rfl
  | error failure =>
    exact (hi.rejectFailed hp hx hs hopen).quiet rfl rfl rfl

theorem Settled.stepClaim? (hi : h.Settled) (hp : h.Paired) (hs : h.stepClaim? cfg c = some h') :
    h'.Settled := by
  rw [Harness.stepClaim?, Option.bind_eq_bind, Option.bind_eq_some_iff] at hs
  obtain ⟨x, hx, hs⟩ := hs
  split at hs
  · next hst =>
    cases hs
    exact hi.takePermit hx hst
  · next hst =>
    cases hs
    exact hi.launch hx (by simp [hst]) (by rw [hst]; rfl)
  · next result hst =>
    cases hs
    exact hi.conclude hp hx hst
  · cases hs

end Intercept.Harness
