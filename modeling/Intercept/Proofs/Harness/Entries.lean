import Intercept.Proofs.Harness.Passes

/-! What the moves of a harness that is the only client of its broker enter into the books. -/
namespace Intercept
variable {M : Type}

/-- How the books change as a claim is settled whose callback has ended. A failure is left to the
next teardown unless the current generation is over. If the settlement fails, the harness ends. -/
inductive Claim.Settling (x : Claim M) (past : Prop) (b : Broker Nat) (l : Ledger) :
    Except Failure Unit → Broker Nat → Ledger → (ends : Bool) → Prop
  | acked (b' : Broker Nat) (l' : Ledger) : b.disposed = false → l.Ended l' x.tag .acked →
    Broker.Settles [] (· = x.tag) b b' → b'.acked = b.acked ++ [x.tag] → b'.nacked = b.nacked →
    b'.operations = b.operations ++ [.ack x.tag] → Settling x past b l (.ok ()) b' l' false
  | lost : Settling x past b l (.ok ()) b l true
  | rejected (failure : Failure) (b' : Broker Nat) (l' : Ledger) : past → b.disposed = false →
    l.Ended l' x.tag .alreadyNacked → Broker.Settles [(x.tag, false)] (· = x.tag) b b' →
    b'.acked = b.acked → (∀ t, t ∈ b'.nacked ↔ t ∈ b.nacked ∨ t = x.tag) →
    b'.operations = b.operations ++ [.nack x.tag false] →
    Settling x past b l (.error failure) b' l' false
  | dropped (failure : Failure) (l' : Ledger) : past → l.Ended l' x.tag .alreadyNacked →
    Settling x past b l (.error failure) b l' true
  | deferred (failure : Failure) (l' : Ledger) : ¬ past → l.Ended l' x.tag .shouldNack →
    Settling x past b l (.error failure) b l' false

namespace Harness
variable {cfg : Setup M} {loud : Prop} {h h' h₁ : Harness M} {c g i : Nat} {x : Generation}
  {y : Claim M} {e : HarnessError}

/-- The current generation is over, or there is none. -/
def Over (h : Harness M) : Prop := (h.currentState.map (·.isTerminal)).getD true = true

/-- The claim is settled, and its waiter completed. -/
def answered (h : Harness M) (c : Nat) (x : Claim M) (outcome : Outcome M) (broker : Broker Nat)
    (ledger : Ledger) : Harness M :=
  (({ h with broker, ledger } : Harness M).complete x.wait outcome).enterClaim c .settled

/-- How a claim is concluded whose callback has ended. If it cannot be settled, the harness ends. -/
inductive Conclusion (cfg : Setup M) (h : Harness M) (c : Nat) (x : Claim M)
    (result : Except Failure Unit) : Harness M → Prop
  | goesOn (outcome : Outcome M) (broker : Broker Nat) (ledger : Ledger) :
    x.Settling h.Over h.broker h.ledger result broker ledger false →
    (h.answered c x outcome broker ledger).Attended cfg →
    Conclusion cfg h c x result (h.answered c x outcome broker ledger).returnPermit
  | ends (outcome : Outcome M) (broker : Broker Nat) (ledger : Ledger) (e : BrokerError) :
    x.Settling h.Over h.broker h.ledger result broker ledger true →
    (h.answered c x outcome broker ledger).Attended cfg →
    Conclusion cfg h c x result
      ((h.answered c x outcome broker ledger).fail (.transport e)).returnPermit

/-- What a move enters into the books. -/
inductive Entry (cfg : Setup M) (h : Harness M) : Harness M → Prop
  | quiet {h' : Harness M} : Deeds False h h' → Entry cfg h h'
  | published (bodies : List Body) : Entry cfg h (h.publishAll bodies).1
  | routed {h' : Harness M} (g : Nat) (d : Delivery) (h₁ : Harness M) : h.Routed cfg g d h₁ →
    Deeds False h₁ h' → h.failure = none → h.Live g → Entry cfg h h'
  | attached {h' : Harness M} (g : Nat) (c : Consumer Nat) : h.failure = none → h.Live g →
    h.broker.consumers = [] → h.broker.held = [] → h.Tidy h' → c.sink = g →
    h'.broker.operations = h.broker.operations ++ [.start c.tag c.priority] →
    h'.broker.consumers = [c] → h'.broker.held = [] → Entry cfg h h'
  | withheld {h' : Harness M} (g : Nat) (c : Consumer Nat) : h.failure = none → h.Live g →
    h.Tidy h' → h.broker.consumers = [c] → c.sink = g →
    h'.broker.operations = h.broker.operations ++ [.cancel c.tag] →
    h'.broker.consumers = [] → h'.broker.held = [c] → Entry cfg h h'
  | concluded {h' : Harness M} (c : Nat) (x : Claim M) (result : Except Failure Unit)
    (outcome : Outcome M) (broker : Broker Nat) (ledger : Ledger) (ends : Bool) :
    h.claims[c]? = some x → x.stage = .running (.returned result) →
    x.Settling h.Over h.broker h.ledger result broker ledger ends →
    (h.answered c x outcome broker ledger).Attended cfg →
    Deeds False (h.answered c x outcome broker ledger) h' →
    (ends = true → h'.failure ≠ none) → Entry cfg h h'
  | passed {h' : Harness M} (g : Nat) : h.Passes cfg g h' → (h.failure = none → h.Live g) →
    Entry cfg h h'

/-! A claim is settled. -/

theorem failure_deeds (hd : Deeds loud h h') (hf : h.failure ≠ none) : h'.failure ≠ none := by
  induction hd with
  | refl => exact hf
  | tail _ hone ih =>
    cases hone with
    | quiet hs =>
      simp only [scene, Prod.mk.injEq] at hs
      rw [hs.2.2.2.2.2.2.2.2.1]
      exact ih
    | ended e current _ _ => simp
    | began c x actions _ _ =>
      obtain ⟨notes, heq, _⟩ := act_eq (noteCall _ (.began x.tag x.message)) c x actions
      rw [heq]
      exact ih
    | resumed c x actions _ _ =>
      obtain ⟨notes, heq, _⟩ := act_eq _ c x actions
      rw [heq]
      exact ih
    | _ => exact ih

theorem conclusion_of_ok (ha : h.Attended cfg) (hi : h.Settled) (hy : h.claims[c]? = some y)
    (hs : y.stage = .running (.returned (.ok ()))) :
    h.Conclusion cfg c y (.ok ()) (h.conclude cfg c y (.ok ())) := by
  have hmem := List.mem_of_getElem? hy
  have hopen : y.stage.isOpen = true := by rw [hs]; rfl
  have ht := hi.books.unfinished y hmem hopen
  rw [conclude]
  rcases ack_cases cfg hi ht with ⟨e, hfails⟩ | ⟨hf, b, hack, hset, hacked, hnacked, hops⟩
  · simp only [hfails, enterClaim_fail]
    exact .ends _ _ _ e .lost (ha.answered hy hs (fun _ hmem => hmem) (.lost e))
  · obtain ⟨f, hl⟩ := hi.live hf
    obtain ⟨l, hl', he⟩ := hi.books.endProcessing hmem hopen .acked
    have hsettle : ({ h with broker := b } : Harness M).settle y.tag .acked =
        { h with broker := b, ledger := l } := settle_of_ok hl'
    simp only [hack, hsettle]
    refine .goesOn _ _ _ (.acked b l hl.active.running he hset hacked hnacked hops)
      (ha.answered hy hs (fun t ht => ?_) (.acked ?_))
    · rw [hacked]
      exact List.mem_append_left _ ht
    · rw [hacked]
      exact List.mem_append_right _ (List.mem_singleton.2 rfl)

theorem conclusion_of_error {failure : Failure} (ha : h.Attended cfg) (hi : h.Settled)
    (hy : h.claims[c]? = some y) (hs : y.stage = .running (.returned (.error failure))) :
    h.Conclusion cfg c y (.error failure) (h.conclude cfg c y (.error failure)) := by
  have hmem := List.mem_of_getElem? hy
  have hopen : y.stage.isOpen = true := by rw [hs]; rfl
  have ht := hi.books.unfinished y hmem hopen
  obtain ⟨w, hw, hv, _, _⟩ := ha.wait_of_claim hmem
  have hanswered : ∀ {broker : Broker Nat} {ledger : Ledger}, broker.acked = h.broker.acked →
      (h.answered c y _ broker ledger).Attended cfg := fun heq =>
    ha.answered hy hs (fun _ hmem => heq ▸ hmem) (.failed failure)
  simp only [conclude]
  rw [rejectFailed]
  split
  · next hover =>
    obtain ⟨l, hl', he⟩ := hi.books.endProcessing hmem hopen .alreadyNacked
    rw [settle_of_ok hl']
    rcases nack_cases cfg hi (l := l) ht with
      ⟨e, hnack⟩ | ⟨hf, b, hnack, hset, hacked, hnacked, hops⟩
    · have hv' : ({ h with ledger := l } : Harness M).waitersOf y.wait = [] := hv
      rw [hnack]
      simp only [complete_fail hv', enterClaim_fail]
      exact .ends _ _ _ e (.dropped failure l hover he) (hanswered rfl)
    · obtain ⟨f, hl⟩ := hi.live hf
      have hself : (fun u => Broker.covers y.tag false u = true) = (· = y.tag) :=
        funext fun u => propext beq_iff_eq
      rw [hnack]
      refine .goesOn _ _ _ (.rejected failure b l hover hl.active.running he (hself ▸ hset)
        hacked (fun t => ?_) hops) (hanswered hacked)
      rw [hnacked t]
      refine or_congr_right ⟨fun hcov => beq_iff_eq.1 hcov.2, ?_⟩
      rintro rfl
      exact ⟨(hl.active.tracks _).2 (.inl ht), beq_iff_eq.2 rfl⟩
  · next hrunning =>
    obtain ⟨l, hl', he⟩ := hi.books.endProcessing hmem hopen .shouldNack
    rw [settle_of_ok hl']
    exact .goesOn _ _ _ (.deferred failure l hrunning he) (hanswered rfl)

theorem conclusion_of_returned {result : Except Failure Unit} (ha : h.Attended cfg)
    (hi : h.Settled) (hy : h.claims[c]? = some y) (hs : y.stage = .running (.returned result)) :
    h.Conclusion cfg c y result (h.conclude cfg c y result) := by
  cases result with
  | ok => exact conclusion_of_ok ha hi hy hs
  | error failure => exact conclusion_of_error ha hi hy hs

theorem deeds_failed {outcome : Outcome M} {broker : Broker Nat} {ledger : Ledger}
    {e : BrokerError} (hmid : (h.answered c y outcome broker ledger).Attended cfg) :
    Deeds False (h.answered c y outcome broker ledger)
      ((h.answered c y outcome broker ledger).fail (.transport e)).returnPermit := by
  have hfail : Deeds False _ _ := deeds_fail (e := .transport e) hmid rfl
  exact hfail.trans (deeds_returnPermit _)

theorem Conclusion.entry {result : Except Failure Unit} (hc : h.Conclusion cfg c y result h')
    (hy : h.claims[c]? = some y) (hs : y.stage = .running (.returned result)) :
    h.Entry cfg h' := by
  cases hc with
  | goesOn outcome broker ledger hsettling hmid =>
    exact .concluded c y result outcome broker ledger false hy hs hsettling hmid
      (deeds_returnPermit _) (by simp)
  | ends outcome broker ledger e hsettling hmid =>
    refine .concluded c y result outcome broker ledger true hy hs hsettling hmid
      (deeds_failed hmid) fun _ => ?_
    have hreturn : Deeds False ((h.answered c y outcome broker ledger).fail (.transport e)) _ :=
      deeds_returnPermit _
    exact failure_deeds hreturn (failure_fail _ _)

theorem entry_stepClaim? (ha : h.Attended cfg) (hi : h.Settled)
    (hs : h.stepClaim? cfg c = some h') : h.Entry cfg h' := by
  rw [stepClaim?, Option.bind_eq_bind, Option.bind_eq_some_iff] at hs
  obtain ⟨x, hx, hs⟩ := hs
  split at hs
  · next hstage =>
    cases hs
    exact .quiet (deeds_takePermit hx hstage)
  · next hstage =>
    cases hs
    exact .quiet (deeds_launch hx (.inr hstage))
  · next result hstage =>
    cases hs
    exact (conclusion_of_returned ha hi hx hstage).entry hx hstage
  · cases hs

/-! A generation begins. -/

/-- The broker attaches a generation, unless its channel is released. -/
theorem entry_attach (ha : h.Attended cfg) (hd : Deeds False h h₁) (hk : h₁.Kept)
    (hl : h₁.failure = none → h.failure = none ∧ h.Live g)
    (hfree : h.failure = none → h.broker.consumers = [] ∧ h.broker.held = [])
    (hb : h₁.broker = h.broker) (hx : h₁.generations[g]? = some x)
    (hst : x.stage.isOpening = true) : h.Entry cfg (h₁.attach cfg g) := by
  have ha₁ := ha.deeds hd
  have hconsumer : (h₁.generations[g]?.map (·.consumer)).getD "" = x.consumer := by rw [hx]; rfl
  rw [attach, hconsumer]
  by_cases hdis : h₁.broker.disposed = true
  · simp only [Broker.start_of_disposed hdis]
    exact .quiet (hd.trans (deeds_startFailed ha₁ rfl))
  · have hopen := Bool.eq_false_iff.2 hdis
    obtain ⟨hf, hlive⟩ := hl (hk.unfailed hopen)
    obtain ⟨hnobody, hheld⟩ := hfree hf
    have hattached : Deed False h₁ _ := deed_attached hx hst
    have htidy := (hd.tidy ha).1.trans (hattached.tidy ha₁).1
    simp only [Broker.start_of_open hopen]
    refine .attached g ⟨x.consumer, cfg.settings.priority.toInt, g⟩ hf hlive hnobody hheld
      ⟨htidy.books, htidy.subjects, htidy.inbound, htidy.completed⟩ rfl ?_ ?_ ?_
    · rw [← hb]
      rfl
    · change h₁.broker.consumers ++ _ = _
      rw [hb, hnobody]
      rfl
    · exact (congrArg Broker.held hb).trans hheld

theorem entry_subscribe (ha : h.Attended cfg) (hi : h.Settled)
    (hx : h.generations[g]? = some x) (hadmitted : h.Admitted x)
    (hl : h.failure = none → h.Live g) : h.Entry cfg (h.subscribe cfg g) := by
  have hst : x.stage.isOpening = true := by
    rcases hadmitted with hst | ⟨p, d, hst, _⟩ <;> rw [hst] <;> rfl
  have hlife : h.life g = x.life := life_of_some (lives_of_some hx)
  rw [subscribe, hlife]
  split
  · next hstop => exact .passed g (.abandoned x hx hadmitted hstop) hl
  · let φ : Generation → Generation := fun x =>
      { x with consumer := cfg.consumerTag h.subscriptions.length }
    have hnamed : Deed False h (h.changeGeneration g φ) :=
      .moved g φ fun y hy => ⟨⟨.refl, id, fun d => ha.opened g y d hy, ha.unopened g y hy, id,
        fun _ => id⟩, .inr id, rfl⟩
    have hd : Deeds False h
        ({ h with subscriptions := h.subscriptions ++ [g] }.changeGeneration g φ) :=
      hnamed.one.tail (.quiet rfl)
    have hx₁ : ({ h with subscriptions := h.subscriptions ++ [g] }.changeGeneration g
        φ).generations[g]? = some (φ x) := getElem?_changeGeneration hx
    simp only
    split
    · refine entry_attach ha hd (hi.toKept.quiet rfl) (fun hf => ⟨hf, hl hf⟩) (fun hf => ?_) rfl hx₁
        hst
      obtain ⟨_, hc, hh, _⟩ := (hl hf).front.of_opening hx hst
      exact ⟨hc, hh⟩
    · exact .quiet (hd.trans (deeds_startFailed (ha.deeds hd) rfl))
    · refine .quiet (hd.tail (deed_enter (fun y hy => .inl ?_) (by simp)
        (fun _ => (ha.deeds hd).unopened_of hx₁ hst) (by simp) fun _ _ p hp => ?_))
      · obtain rfl := Option.some.inj (hx₁.symm.trans hy)
        rintro he
        change x.stage = .ended at he
        rw [he] at hst
        cases hst
      · rcases hp with hp | ⟨_, hp⟩ <;> cases hp

/-! A generation leaves. -/

theorem entry_leave {deadline : Option Nat} (ha : h.Attended cfg) (hi : h.Settled)
    (hh₁ : h₁ = h ∨ h₁ = h.expireAll cfg g) (hl : h.failure = none → h.Live g)
    (hx : h₁.generations[g]? = some x) (hst : x.stage = .routing deadline)
    (hstopped : h.failure = none → x.life.state = .stopped) : h.Entry cfg (h₁.leave cfg g) := by
  obtain ⟨hd, hsame, _, hlive⟩ := leaving ha hh₁
  have hended : Deed False h₁ (h₁.enter g .ended) := deed_end
  have hleft : Deeds False h { h₁.enter g .ended with cancelCalls := h₁.cancelCalls + 1 } :=
    (hd.tail hended).tail (.quiet rfl)
  have hconsumer : (h₁.generations[g]?.map (·.consumer)).getD "" = x.consumer := by rw [hx]; rfl
  rw [leave, hconsumer]
  simp only
  split
  · exact .quiet (hleft.trans (deeds_fail (ha.deeds hleft) rfl))
  · by_cases hdis : h.broker.disposed = true
    · have hcancel : (h₁.enter g .ended).broker.cancel x.consumer =
          (h₁.broker, .error .closed) := Broker.cancel_of_disposed (hsame ▸ hdis)
      simp only [hcancel]
      exact .quiet (hleft.trans (deeds_fail (ha.deeds hleft) rfl))
    · have hopen := Bool.eq_false_iff.2 hdis
      have hf := hi.toKept.unfailed hopen
      obtain ⟨c, hc, htag, hsink, hheld, _⟩ := (hlive (hl hf)).front.of_routing hx hst
      have hcancel := Broker.cancel_of_single (hsame ▸ hopen) hc
      rw [htag] at hcancel
      rw [hsame] at hc hheld
      by_cases hhold : h₁.broker.holding = true
      · rw [if_pos hhold] at hcancel
        have henter : (h₁.enter g .ended).broker.cancel x.consumer = _ := hcancel
        simp only [henter]
        have htidy := (hleft.tidy ha).1
        refine .withheld g c hf (hl hf) ⟨?_, htidy.subjects, htidy.inbound, htidy.completed⟩ hc hsink
          ?_ rfl ?_
        · exact htidy.books
        · change h₁.broker.operations ++ [.cancel x.consumer] = _
          rw [hsame, htag]
        · change h₁.broker.held ++ [c] = [c]
          rw [hsame, hheld]
          rfl
      · rw [if_neg hhold] at hcancel
        have henter : (h₁.enter g .ended).broker.cancel x.consumer = _ := hcancel
        simp only [henter]
        have hpass : h.Passes cfg g _ := .left h₁ x deadline c hh₁ hx hst (hstopped hf) hc hsink
        rw [← hsame, htag] at hpass
        exact .passed g hpass hl

theorem entry_route? {deadline : Option Nat} (ha : h.Attended cfg) (hi : h.Settled)
    (hp : h.Paired) (hl : h.failure = none → h.Live g) (hx : h.generations[g]? = some x)
    (hst : x.stage = .routing deadline) (hs : h.route? cfg g deadline = some h') :
    h.Entry cfg h' := by
  simp only [route?, hx, Option.bind_eq_bind, Option.bind_some] at hs
  split at hs
  · next hstop =>
    cases hs
    exact entry_leave ha hi (.inl rfl) hl hx hst fun hf => (hl hf).stopped hp hf hx hstop
  · next hgoing =>
    obtain ⟨hf, hobs⟩ := hp.unfailed_of_routing hx hgoing
    split at hs
    · cases hs
      exact entry_leave ha hi (.inr rfl) hl (expireAll_generation hx) hst
        fun _ => Lifecycle.stop_state hobs
    · split at hs
      · next d rest hin =>
        cases hs
        obtain ⟨h₁, hr, heq⟩ := dispatch_routed cfg deadline
          (Serves.mk hx ⟨deadline, hst⟩ hgoing hin)
        refine .routed g d h₁ hr ?_ hf (hl hf)
        rw [heq]
        split
        · exact (deed_stop (ha.routed hp hr)).one
        · exact .refl
      · split at hs
        · cases hs
        · next hhandles =>
          -- The consumer is attached, so its handlers exist.
          obtain ⟨c, hc, _, hsink, _⟩ := (hl hf).front.of_routing hx hst
          exact (hhandles (by simp [handles, hc, hsink])).elim

theorem entry_stepGeneration? (ha : h.Attended cfg) (hi : h.Settled) (hp : h.Paired)
    (hs : h.stepGeneration? cfg g = some h') : h.Entry cfg h' := by
  rw [stepGeneration?, Option.bind_eq_bind, Option.bind_eq_some_iff] at hs
  obtain ⟨x, hx, hs⟩ := hs
  split at hs
  · next hst =>
    cases hs
    refine entry_subscribe ha hi hx (.inl hst) (hi.live_front fun f hl => ?_)
    exact hl.lineup.eq_front hx (by simp [hst]) (by simp [hst]) (by simp [hst])
  · next previous hst =>
    cases hs
    exact .quiet (deed_waiting ha.toOrderly hx hst).one
  · next previous deadline hst =>
    split at hs
    · next hdone =>
      cases hs
      have hcompleted : h.Completed previous := by
        rw [Completed]
        cases hsig : (h.life previous).fullyStopped <;> simp_all
      refine entry_subscribe ha hi hx (.inr ⟨previous, deadline, hst, hcompleted⟩)
        (hi.live_front fun f hl => hl.front_of_waiting hx hst ?_)
      rw [hcompleted]
      simp
    · next e he =>
      cases hs
      refine .quiet (deeds_startFailed ha (ha.failed_terminal (g := previous) ?_))
      cases hsig : (h.life previous).fullyStopped <;> simp_all
    · split at hs
      · cases hs
        exact .quiet (deeds_startFailed ha rfl)
      · cases hs
  · next answerAt deadline error hst =>
    split at hs
    · split at hs
      · cases hs
        have hopening : x.stage.isOpening = true := by rw [hst]; rfl
        have hfront : ∀ f, h.Live f → g = f := fun f hl =>
          hl.lineup.eq_front hx (by simp [hst]) (by simp [hst]) (by simp [hst])
        have hl := hi.live_front hfront
        refine entry_attach ha .refl hi.toKept (fun hf => ⟨hf, hl hf⟩) (fun hf => ?_) rfl hx hopening
        obtain ⟨_, hc, hh, _⟩ := (hl hf).front.of_opening hx hopening
        exact ⟨hc, hh⟩
      · cases hs
        exact .quiet (deeds_startFailed ha rfl)
    · split at hs
      · cases hs
        exact .quiet (deeds_startFailed ha rfl)
      · cases hs
  · next deadline hst =>
    have hfront : ∀ f, h.Live f → g = f := fun f hl =>
      hl.lineup.eq_front hx (by simp [hst]) (by simp [hst]) (by simp [hst])
    exact entry_route? ha hi hp (hi.live_front hfront) hx hst hs
  · cases hs

/-! Acts. -/

theorem entry_release (hi : h.Settled) : h.Entry cfg
    (h.broker.release.2.foldl (fun (h : Harness M) c => h.confirm cfg c)
      { h with broker := h.broker.release.1 }) := by
  change h.Entry cfg (h.broker.held.foldl _ _)
  by_cases hh : h.broker.held = []
  · rw [hh]
    refine .quiet (Deed.one (.quiet ?_))
    simp [scene, Broker.account, Broker.release, hh]
  · obtain ⟨hf, _⟩ := hi.unfailed_of_channel (.inr hh)
    obtain ⟨f, hl⟩ := hi.live hf
    rcases hl.single with ⟨_, hnone⟩ | ⟨c, ⟨_, hnone⟩ | ⟨_, hheld⟩⟩
    · exact (hh hnone).elim
    · exact (hh hnone).elim
    · obtain ⟨hsink, _⟩ := hl.released (b := h.broker.release.1) hheld
        ⟨rfl, rfl, rfl, rfl, rfl, fun _ _ hmem => hmem⟩ rfl rfl rfl
      rw [hheld]
      exact .passed f (.released c hheld hsink) fun _ => hl

theorem entry_act {a : Act M} {reply : BrokerReply} (ha : h.Attended cfg) (hi : h.Settled)
    (hown : a.isForeign = false) (hact : h.act? cfg a = some (h', reply)) : h.Entry cfg h' := by
  cases a with
  | call description predicate =>
    rw [act?] at hact
    split at hact
    · cases hact
    · cases hact
      exact .quiet (Deed.one (.called _ rfl rfl))
  | await i =>
    obtain ⟨h₁, hs, heq⟩ := Option.map_eq_some_iff.1 hact
    cases heq
    exact .quiet (deeds_await hs)
  | giveUp i =>
    obtain ⟨h₁, hs, heq⟩ := Option.map_eq_some_iff.1 hact
    cases heq
    exact .quiet (deeds_giveUp ha hs)
  | publish body =>
    cases hact
    exact .published [body]
  | publishAll bodies =>
    cases hact
    exact .published bodies
  | release =>
    cases hact
    exact entry_release hi
  | failConnection reason =>
    cases hact
    exact .quiet (deeds_failAll ha rfl)
  | dispose =>
    rw [act?] at hact
    split at hact
    · cases hact
    · cases hact
      exact .quiet (deeds_dispose ha)
  | drop =>
    cases hact
    have hd : Deed False h { h with dropped := true } := .quiet rfl
    exact .quiet (hd.one.trans (deeds_disposeIfUnowned (ha.deed hd)))
  | openGate | hold | consumeBacklog =>
    cases hact
    exact .quiet (Deed.one (.quiet rfl))
  | ack | nack | disposeBroker | notify => cases hown

/-- Say once what a move can do to the books. -/
theorem entry_of_moves (ha : h.Attended cfg) (hi : h.Settled) (hp : h.Paired)
    (hm : Moves cfg (fun a => a.isForeign = false) h h') : h.Entry cfg h' := by
  cases hm with
  | act a hown hact => exact entry_act ha hi hown hact
  | tick => exact .quiet (Deed.one (.quiet rfl))
  | step t hs =>
    cases t with
    | wait i => exact .quiet (deeds_stepWait? ha hp hs)
    | generation g => exact entry_stepGeneration? ha hi hp hs
    | claim c => exact entry_stepClaim? ha hi hs
    | callback c => exact .quiet (deeds_stepCallback? hs)

/-- So does a run. -/
theorem Run.entry {s : Nat → Harness M} (hr : Run cfg (fun a => a.isForeign = false) s) (n : Nat) :
    (s n).Entry cfg (s (n + 1)) := by
  rcases hr.next n with heq | hm
  · rw [heq]
    exact .quiet .refl
  · exact entry_of_moves (hr.attended n) (settled_reachable (hr.alone n))
      (paired_reachable (hr.reachable n)) hm

end Harness
end Intercept
