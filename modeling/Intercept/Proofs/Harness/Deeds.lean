import Intercept.Proofs.Harness.Attended
import Intercept.Proofs.Harness.Settling

/-! The deeds that moves of a harness consist of. Each of them leaves every wait attended to. -/
namespace Intercept
variable {M : Type}

/-- What a broker accounts for. -/
def Broker.account {κ : Type} (b : Broker κ) :
    Nat × List (Consumer κ) × List (Nat × Body) × List Nat × List Nat × List Operation ×
      List (Consumer κ) × Bool :=
  (b.lastTag, b.consumers, b.unsettled, b.acked, b.nacked, b.operations, b.held, b.disposed)

/-- How a generation goes on. -/
structure Generation.Forward (x y : Generation) : Prop where
  life : x.life.Onward y.life
  ended : x.stage = .ended → y.stage = .ended
  opened : ∀ d, y.stage = .routing d → y.life.state ≠ .initial
  unopened : y.stage.isOpening = true → y.life.state ≠ .started
  first : y.stage = .created none → x.stage = .created none
  follows : ∀ p, y.stage.Follows p → x.stage.Follows p

/-- How a generation changes apart from its deliveries. Unless the change is `loud`, it does not
hand its messages back. -/
structure Generation.Advance (loud : Prop) (x y : Generation) : Prop extends Forward x y where
  quiet : loud ∨ (y.life.fullyStopped = .resolved (.ok ()) →
    x.life.fullyStopped = .resolved (.ok ()))
  inbound : y.inbound = x.inbound

/-- How a callback that has ended is answered for. -/
inductive Claim.Answer (x : Claim M) (acked : List Nat) : Except Failure Unit → Outcome M → Prop
  | acked : x.tag ∈ acked → Answer x acked (.ok ()) (.ok x.message)
  | lost (e : BrokerError) : Answer x acked (.ok ()) (.error (.transport e))
  | failed (failure : Failure) :
    Answer x acked (.error failure) (.error (.processing x.tag failure))

namespace Harness

/-- The part of a harness that deeds are about. -/
def scene (h : Harness M) :=
  (h.waits, h.waiters, h.claims, h.permitQueue, h.notices, h.calls, h.generations, h.current,
    h.failure, h.ledger, h.broker.account)

/-- The waits after the waiters of a list were completed with errors. -/
def resolveAll (waits : List (Wait M)) (waiters : List (Waiter M))
    (error : Waiter M → HarnessError) : List (Wait M) :=
  waiters.foldl (fun waits v => waits.modify v.id fun w =>
    { w with outcome := w.outcome.resolve (.error (error v)) }) waits

/-- The waiter of a wait leaves the list. -/
def unlist (h : Harness M) (i : Nat) : Harness M :=
  { h with waiters := h.waiters.eraseP (·.id == i) }

/-- One deed. The `loud` ones settle deliveries or bring in new ones. -/
inductive Deed (loud : Prop) (h : Harness M) : Harness M → Prop
  | quiet {h' : Harness M} : h'.scene = h.scene → Deed loud h h'
  | booked (broker : Broker Nat) (ledger : Ledger) : loud →
    (∀ tag ∈ h.broker.acked, tag ∈ broker.acked) → Deed loud h { h with broker, ledger }
  | received (g : Nat) (d : Delivery) : loud → Deed loud h (h.receive g d)
  | moved (g : Nat) (φ : Generation → Generation) :
    (∀ x, h.generations[g]? = some x → x.Advance loud (φ x)) →
    Deed loud h (h.changeGeneration g φ)
  | cleared (error : Waiter M → HarnessError) : (∀ w, (error w).isProcessing = false) →
    Deed loud h { h with waits := resolveAll h.waits h.waiters error, waiters := [] }
  | ended (e : HarnessError) (current : Option Nat) : h.waiters = [] → e.isTerminal = true →
    Deed loud h { h with failure := some e, current, broker := h.broker.dispose }
  | called (w : Wait M) : w.stage = .calling → w.outcome = .pending →
    Deed loud h { h with waits := h.waits ++ [w] }
  | joined (i : Nat) (w : Wait M) (g : Nat) : h.failure = none → h.waits[i]? = some w →
    w.stage = .calling → h.current = some g →
    Deed loud h ({ h with waiters := h.waiters ++ [w.waiter i] }.enterWait i (.starting g))
  | created (i : Nat) (w : Wait M) : h.failure = none → h.waiters = [] → h.waits[i]? = some w →
    w.stage = .calling →
    Deed loud h ({ h with
      waiters := h.waiters ++ [w.waiter i]
      generations := h.generations ++ [({ stage := .created h.current } : Generation)]
      current := some h.generations.length }.enterWait i (.starting h.generations.length))
  | turnedAway (i : Nat) (w : Wait M) (e : HarnessError) : h.waits[i]? = some w →
    w.stage = .calling ∨
      (∃ g, w.stage = .starting g ∧ (h.life g).started = .resolved (.error e)) →
    e.isProcessing = false →
    Deed loud h (((h.unlist i).enterWait i (.refused e)).tell i (.result (.error e)))
  | accepted (i : Nat) (w : Wait M) (g : Nat) : h.waits[i]? = some w → w.stage = .starting g →
    (h.life g).started = .resolved (.ok ()) →
    Deed loud h ((h.enterWait i .registered).tell i .registered)
  | awaits (i : Nat) (w : Wait M) (stage : WaitStage M) : h.waits[i]? = some w →
    w.stage = .registered ∧ stage = .awaited ∨
      w.stage = .awaited ∧ (∃ deadline, stage = .awaiting deadline) →
    Deed loud h (h.enterWait i stage)
  | overdue (i : Nat) (w : Wait M) (deadline : Nat) : h.waits[i]? = some w →
    w.stage = .awaiting deadline → h.waitersOf i = [] → Deed loud h (h.enterWait i .overdue)
  | finished (i : Nat) (w : Wait M) (outcome : Outcome M) : h.waits[i]? = some w →
    (∃ deadline, w.stage = .awaiting deadline) ∨ w.stage = .overdue →
    w.outcome = .resolved outcome → Deed loud h (h.finish i outcome)
  | expired (i : Nat) (w : Wait M) (deadline : Nat) (e : HarnessError) : h.waits[i]? = some w →
    w.stage = .awaiting deadline → h.waitersOf i ≠ [] → e.isProcessing = false →
    Deed loud h ((h.unlist i).finish i (.error e))
  | left (i : Nat) (w : Wait M) : h.waits[i]? = some w →
    w.stage.isRegistering = true ∨ w.stage.isAccepted = true ∨ w.stage = .overdue →
    Deed loud h ((h.unlist i).enterWait i .dropped)
  | queued (c : Nat) (x : Claim M) : h.claims[c]? = some x → x.stage = .claimed →
    Deed loud h { h.enterClaim c .queued with permitQueue := h.permitQueue ++ [c] }
  | granted (c : Nat) (rest : List Nat) : h.permitQueue = c :: rest →
    Deed loud h ({ h with permitQueue := rest }.enterClaim c .granted)
  | launched (c : Nat) (x : Claim M) (actions : List Action) : h.claims[c]? = some x →
    x.stage = .claimed ∨ x.stage = .granted → x.callback = some actions →
    Deed loud h (h.enterClaim c (.running (.spawned actions)))
  | brokeOff (c : Nat) (x : Claim M) : h.claims[c]? = some x →
    x.stage = .claimed ∨ x.stage = .granted → x.callback = none →
    Deed loud h ((h.complete x.wait (.error .cancelled)).enterClaim c .brokenOff)
  | began (c : Nat) (x : Claim M) (actions : List Action) : h.claims[c]? = some x →
    x.stage = .running (.spawned actions) →
    Deed loud h ((h.noteCall (.began x.tag x.message)).act c x actions)
  | resumed (c : Nat) (x : Claim M) (actions : List Action) : h.claims[c]? = some x →
    (∃ wakeAt, x.stage = .running (.sleeping wakeAt actions)) ∨
      (∃ gate, x.stage = .running (.gated gate actions)) → Deed loud h (h.act c x actions)
  | answered (c : Nat) (x : Claim M) (result : Except Failure Unit) (outcome : Outcome M)
    (broker : Broker Nat) (ledger : Ledger) : loud → h.claims[c]? = some x →
    x.stage = .running (.returned result) → (∀ tag ∈ h.broker.acked, tag ∈ broker.acked) →
    x.Answer broker.acked result outcome →
    Deed loud h (({ h with broker, ledger }.complete x.wait outcome).enterClaim c .settled)

variable {cfg : Setup M} {loud : Prop} {h h' : Harness M} {c g i j : Nat} {w : Wait M} {x : Claim M}
  {stage : ClaimStage} {e : HarnessError}

/-! What a deed does to the view of one wait. -/

theorem told_append_self {notice : Notice M} (hn : h'.notices = h.notices ++ [(i, notice)]) :
    h'.told i = h.told i ++ [notice] := by
  simp [told, hn]

theorem told_append_of_ne {notice : Notice M} (hn : h'.notices = h.notices ++ [(i, notice)])
    (hj : j ≠ i) : h'.told j = h.told j := by
  simp [told, hn, Ne.symm hj]

theorem waits_enterWait_self {stage : WaitStage M} (hw : h.waits[i]? = some w) :
    (h.enterWait i stage).waits[i]? = some { w with stage } := by
  rw [enterWait, changeWait, List.getElem?_modify_eq, hw]
  rfl

theorem waits_enterWait_of_ne {stage : WaitStage M} (hj : j ≠ i) :
    (h.enterWait i stage).waits[j]? = h.waits[j]? :=
  List.getElem?_modify_ne _ _ (Ne.symm hj)

theorem waitersOf_unlist_of_ne (hj : j ≠ i) : (h.unlist i).waitersOf j = h.waitersOf j := by
  refine filter_eraseP_of_disjoint fun v hv => beq_false_of_ne ?_
  rw [eq_of_beq hv]
  exact Ne.symm hj

theorem waitersOf_unlist_self : (h.unlist i).waitersOf i = (h.waitersOf i).tail :=
  filter_eraseP_self

theorem waitersOf_append_self {v : Waiter M} (hw : h'.waiters = h.waiters ++ [v])
    (hv : v.id = i) : h'.waitersOf i = h.waitersOf i ++ [v] := by
  simp [waitersOf, hw, hv]

theorem waitersOf_append_of_ne {v : Waiter M} (hw : h'.waiters = h.waiters ++ [v])
    (hv : v.id = i) (hj : j ≠ i) : h'.waitersOf j = h.waitersOf j := by
  simp [waitersOf, hw, hv, Ne.symm hj]

/-! A wait gets to another stage. -/

theorem Place.unlist (hp : h.Place i w) :
    (h.unlist i).Place i w ∧ (h.unlist i).waitersOf i = [] := by
  have htail : (h.unlist i).waitersOf i = (h.waitersOf i).tail := waitersOf_unlist_self
  cases hp with
  | calling hv hx ho hs =>
    rw [hv] at htail
    exact ⟨.calling htail hx ho hs, htail⟩
  | listed v g hv hx ho _ _ hs =>
    rw [hv] at htail
    obtain ⟨hcalling, hended, hrefused⟩ := WaitStage.not_over_of_listed (hs.imp_right (·.1))
    refine ⟨.apart htail hx hcalling ?_ fun e he => (hrefused e he).elim, htail⟩
    rintro o (hres | he)
    · simp [ho] at hres
    · exact (hended o he).elim
  | claimed x hv hx hb =>
    rw [hv] at htail
    exact ⟨.claimed x htail hx { hb with }, htail⟩
  | apart hv hx hcalling ho hrefused =>
    rw [hv] at htail
    exact ⟨.apart htail hx hcalling ho hrefused, htail⟩

/-- A wait that is listed no more, or was accepted, goes on. -/
theorem Place.restage {stage : WaitStage M} (hp : h.Place i w)
    (hregistering : stage.isRegistering = false)
    (hlisted : h.waitersOf i = [] ∨ stage.isAccepted = true ∧
      ∀ g, h.current = some g → (h.life g).started = .resolved (.ok ()))
    (hrefused : ∀ e, stage = .refused e → e.isProcessing = false ∧ h.claimsOf i = [])
    (hended : ∀ o, stage = .ended o → w.outcome = .resolved o ∨
      h.claimsOf i = [] ∧ ∃ e, o = .error e ∧ e.isProcessing = false) :
    h.Place i { w with stage } := by
  have hcalling : stage ≠ .calling := by
    rintro rfl
    cases hregistering
  cases hp with
  | calling hv hx ho _ =>
    refine .apart hv hx hcalling ?_ fun e he => (hrefused e he).1
    rintro o (hres | he)
    · simp [ho] at hres
    · rcases hended o he with hres | ⟨_, hres⟩
      · simp [ho] at hres
      · exact hres
  | listed v g hv hx ho hpred hg _ =>
    rcases hlisted with hnone | ⟨haccepted, hstarted⟩
    · rw [hv] at hnone
      cases hnone
    · exact .listed v g hv hx ho hpred hg (.inr ⟨haccepted, hstarted g hg⟩)
  | claimed x hv hx hb =>
    refine .claimed x hv hx { hb with
      starting := ?_, called := hcalling, admitted := ?_, ended := ?_ }
    · rintro g rfl
      cases hregistering
    · intro e he
      have hnone := (hrefused e he).2
      rw [hx] at hnone
      cases hnone
    · intro o ho
      rcases hended o ho with hres | ⟨hnone, _⟩
      · exact hres
      · rw [hx] at hnone
        cases hnone
  | apart hv hx _ ho _ =>
    refine .apart hv hx hcalling ?_ fun e he => (hrefused e he).1
    rintro o (hres | he)
    · exact ho o (.inl hres)
    · rcases hended o he with hres | ⟨_, hres⟩
      · exact ho o (.inl hres)
      · exact hres

/-- The part of a harness that a wait does not change as it goes on. -/
def rest (h : Harness M) :=
  (h.generations, h.current, h.failure, h.claims, h.permitQueue, h.calls, h.broker)

/-- What one wait does is no concern of the others. -/
theorem Attended.changeWait (ha : h.Attended cfg) (hrest : h'.rest = h.rest)
    (hothers : ∀ j, j ≠ i → h.Alone h' j) (hw : h'.waits[i]? = some w)
    (hp : h'.Place i w) (ht : w.stage.Tells (h'.told i)) : h'.Attended cfg := by
  simp only [rest, Prod.mk.injEq] at hrest
  obtain ⟨hg, hc, hf, hclaims, hqueue, hcalls, hbroker⟩ := hrest
  refine ha.change (ha.toOrderly.congr hg hc hf) ⟨fun _ => hc, fun g hs => ?_, ?_, ?_⟩ ?_ ?_ ?_ ?_
  · rw [life, hg]
    exact hs
  · rw [hbroker]
    exact fun _ ht => ht
  · rw [hcalls]
    exact fun _ hn => hn
  · rw [hclaims, hqueue]
    exact ha.queue
  · rw [hclaims]
    exact ha.handled
  · rw [hclaims, hcalls]
    exact ha.begun
  · intro j
    by_cases hj : j = i
    · subst hj
      exact .inr ⟨w, hw, hp, ht⟩
    · exact .inl (hothers j hj)

/-- A wait that is listed no more goes on. -/
theorem Attended.unlist_restage {stage : WaitStage M} (ha : h.Attended cfg)
    (hw : h.waits[i]? = some w) (hregistering : stage.isRegistering = false)
    (hrefused : ∀ e, stage = .refused e → e.isProcessing = false ∧ h.claimsOf i = [])
    (hended : ∀ o, stage = .ended o → w.outcome = .resolved o ∨
      h.claimsOf i = [] ∧ ∃ e, o = .error e ∧ e.isProcessing = false)
    (hrest : h'.rest = h.rest) (hwaits : h'.waits = ((h.unlist i).enterWait i stage).waits)
    (hwaiters : h'.waiters = (h.unlist i).waiters)
    (htold : ∀ j, j ≠ i → h'.told j = h.told j) (ht : stage.Tells (h'.told i)) :
    h'.Attended cfg := by
  have hview : ∀ j, h'.waitersOf j = (h.unlist i).waitersOf j := by
    intro j
    rw [waitersOf, hwaiters, waitersOf]
  simp only [rest, Prod.mk.injEq] at hrest
  have hclaims : ∀ j, h'.claimsOf j = h.claimsOf j := by
    intro j
    rw [claimsOf, hrest.2.2.2.1, claimsOf]
  refine ha.changeWait (by simp [rest, hrest]) (w := { w with stage }) (i := i) ?_ ?_ ?_ ht
  · intro j hj
    refine ⟨?_, ?_, hclaims j, htold j hj⟩
    · rw [hwaits]
      exact waits_enterWait_of_ne hj
    · rw [hview, waitersOf_unlist_of_ne hj]
  · rw [hwaits]
    exact waits_enterWait_self hw
  · obtain ⟨hp, hnone⟩ := (ha.placed i w hw).unlist
    have hp := hp.restage hregistering (.inl hnone) hrefused hended
    refine hp.mono ⟨fun _ => hrest.2.1, fun g hs => ?_, ?_, ?_⟩ (hview i) (hclaims i)
    · rw [life, hrest.1]
      exact hs
    · rw [hrest.2.2.2.2.2.2]
      exact fun _ ht => ht
    · rw [hrest.2.2.2.2.2.1]
      exact fun _ hn => hn

theorem tells_of_awaiting {w : Wait M} {ns : List (Notice M)} (ht : w.stage.Tells ns)
    (hs : (∃ deadline, w.stage = .awaiting deadline) ∨ w.stage = .overdue) :
    ns = [.registered] := by
  rcases hs with ⟨deadline, hs⟩ | hs <;> rw [hs] at ht <;> exact ht

theorem Attended.turnedAway (ha : h.Attended cfg) (hw : h.waits[i]? = some w)
    (hs : w.stage = .calling ∨
      ∃ g, w.stage = .starting g ∧ (h.life g).started = .resolved (.error e))
    (he : e.isProcessing = false) :
    (((h.unlist i).enterWait i (.refused e)).tell i (.result (.error e))).Attended cfg := by
  have htold : h.told i = [] := by
    have ht := ha.tells i w hw
    rcases hs with hs | ⟨g, hs, _⟩ <;> rw [hs] at ht <;> exact ht
  have hfree : h.claimsOf i = [] := by
    cases ha.placed i w hw with
    | calling _ hx _ _ => exact hx
    | listed _ _ _ hx _ _ _ _ => exact hx
    | claimed x _ _ hb =>
      rcases hs with hs | ⟨g, hs, hstarted⟩
      · exact (hb.called hs).elim
      · rw [(hb.starting g hs).2] at hstarted
        cases hstarted
    | apart _ hx _ _ _ => exact hx
  refine ha.unlist_restage hw rfl ?_ (by simp) rfl rfl rfl (fun _ => told_append_of_ne rfl) ?_
  · intro e' he'
    cases he'
    exact ⟨he, hfree⟩
  · rw [told_append_self (h := h) rfl, htold]
    rfl

theorem Attended.left (ha : h.Attended cfg) (hw : h.waits[i]? = some w)
    (hs : w.stage.isRegistering = true ∨ w.stage.isAccepted = true ∨ w.stage = .overdue) :
    ((h.unlist i).enterWait i .dropped).Attended cfg := by
  refine ha.unlist_restage hw rfl (by simp) (by simp) rfl rfl rfl (fun _ _ => rfl) ?_
  have ht := ha.tells i w hw
  change h.told i = [] ∨ h.told i = [.registered]
  cases hstage : w.stage <;>
    simp_all [WaitStage.Tells, WaitStage.isRegistering, WaitStage.isAccepted]

theorem Attended.expired {deadline : Nat} (ha : h.Attended cfg) (hw : h.waits[i]? = some w)
    (hs : w.stage = .awaiting deadline) (hlisted : h.waitersOf i ≠ [])
    (he : e.isProcessing = false) : ((h.unlist i).finish i (.error e)).Attended cfg := by
  have hfree : h.claimsOf i = [] := by
    cases ha.placed i w hw with
    | listed _ _ _ hx _ _ _ _ => exact hx
    | calling hv _ _ _ | claimed _ hv _ _ | apart hv _ _ _ _ => exact (hlisted hv).elim
  have hover : (WaitStage.ended (M := M) (.error e)).isRegistering = false := rfl
  refine ha.unlist_restage hw hover (by simp) ?_ rfl rfl rfl (fun _ => told_append_of_ne rfl) ?_
  · intro o ho
    cases ho
    exact .inr ⟨hfree, e, rfl, he⟩
  · rw [told_append_self (h := h) rfl, tells_of_awaiting (ha.tells i w hw) (.inl ⟨deadline, hs⟩)]
    rfl

/-- A wait goes on where it is. -/
theorem Attended.enterWait (stage : WaitStage M) (notices : List (Nat × Notice M))
    (ha : h.Attended cfg) (hw : h.waits[i]? = some w) (hregistering : stage.isRegistering = false)
    (hlisted : h.waitersOf i = [] ∨ stage.isAccepted = true ∧
      ∀ g, h.current = some g → (h.life g).started = .resolved (.ok ()))
    (hrefused : ∀ e, stage ≠ .refused e) (hended : ∀ o, stage = .ended o → w.outcome = .resolved o)
    (htold : ∀ j, j ≠ i → ({ h with notices } : Harness M).told j = h.told j)
    (ht : stage.Tells (({ h with notices } : Harness M).told i)) :
    (({ h with notices } : Harness M).enterWait i stage).Attended cfg := by
  refine ha.changeWait (w := { w with stage }) (i := i) rfl ?_ (waits_enterWait_self hw) ?_ ht
  · exact fun j hj => ⟨waits_enterWait_of_ne hj, rfl, rfl, htold j hj⟩
  · have hp := (ha.placed i w hw).restage hregistering hlisted
      (fun e he => (hrefused e he).elim) fun o ho => .inl (hended o ho)
    exact hp.mono ⟨fun _ => rfl, fun _ hs => hs, fun _ ht => ht, fun _ hn => hn⟩ rfl rfl

/-- While a waiter is listed whose wait was accepted, the current generation has started. -/
theorem Attended.started_of_accepted (ha : h.Attended cfg) (hw : h.waits[i]? = some w)
    (hs : w.stage.isAccepted = true) :
    h.waitersOf i = [] ∨ ∀ g, h.current = some g → (h.life g).started = .resolved (.ok ()) := by
  cases ha.placed i w hw with
  | calling hv _ _ _ | claimed _ hv _ _ | apart hv _ _ _ _ => exact .inl hv
  | listed v g _ _ _ _ hg hstart =>
    refine .inr fun g' hg' => ?_
    rw [hg] at hg'
    cases hg'
    rcases hstart with hstart | ⟨_, hstarted⟩
    · rw [hstart] at hs
      cases hs
    · exact hstarted

theorem Attended.accepted (ha : h.Attended cfg) (hw : h.waits[i]? = some w)
    (hs : w.stage = .starting g) (hstarted : (h.life g).started = .resolved (.ok ())) :
    ((h.enterWait i .registered).tell i .registered).Attended cfg := by
  have hlisted : h.waitersOf i = [] ∨ WaitStage.registered.isAccepted (M := M) = true ∧
      ∀ g, h.current = some g → (h.life g).started = .resolved (.ok ()) := by
    cases ha.placed i w hw with
    | calling hv _ _ _ | claimed _ hv _ _ | apart hv _ _ _ _ => exact .inl hv
    | listed v g' _ _ _ _ hg hstart =>
      refine .inr ⟨rfl, fun k hk => ?_⟩
      rw [hg] at hk
      cases hk
      rcases hstart with hstart | ⟨_, hok⟩
      · rw [hs] at hstart
        cases hstart
        exact hstarted
      · exact hok
  refine ha.enterWait .registered (h.notices ++ [(i, .registered)]) hw rfl hlisted (by simp)
    (by simp) (fun _ => told_append_of_ne rfl) ?_
  have ht := ha.tells i w hw
  rw [hs] at ht
  rw [told_append_self (h := h) rfl, show h.told i = [] from ht]
  rfl

theorem Attended.finished {outcome : Outcome M} (ha : h.Attended cfg) (hw : h.waits[i]? = some w)
    (hs : (∃ deadline, w.stage = .awaiting deadline) ∨ w.stage = .overdue)
    (ho : w.outcome = .resolved outcome) : (h.finish i outcome).Attended cfg := by
  have hlisted : h.waitersOf i = [] := by
    cases ha.placed i w hw with
    | calling hv _ _ _ | claimed _ hv _ _ | apart hv _ _ _ _ => exact hv
    | listed _ _ _ _ hpending _ _ _ =>
      rw [ho] at hpending
      cases hpending
  refine ha.enterWait (.ended outcome) (h.notices ++ [(i, .result outcome)]) hw rfl
    (.inl hlisted) (by simp) ?_ (fun _ => told_append_of_ne rfl) ?_
  · intro o heq
    cases heq
    exact ho
  · rw [told_append_self (h := h) rfl, tells_of_awaiting (ha.tells i w hw) hs]
    rfl

theorem Attended.awaits {stage : WaitStage M} (ha : h.Attended cfg) (hw : h.waits[i]? = some w)
    (hs : w.stage = .registered ∧ stage = .awaited ∨
      w.stage = .awaited ∧ ∃ deadline, stage = .awaiting deadline) :
    (h.enterWait i stage).Attended cfg := by
  have ht := ha.tells i w hw
  have haccepted : w.stage.isAccepted = true := by
    rcases hs with ⟨hs, _⟩ | ⟨hs, _⟩ <;> rw [hs] <;> rfl
  have hlisted := ha.started_of_accepted hw haccepted
  rcases hs with ⟨hs, rfl⟩ | ⟨hs, deadline, rfl⟩
  all_goals
    rw [hs] at ht
    exact ha.enterWait _ h.notices hw rfl (hlisted.imp_right fun hg => ⟨rfl, hg⟩)
      (by simp) (by simp) (fun _ _ => rfl) ht

theorem Attended.overdue {deadline : Nat} (ha : h.Attended cfg) (hw : h.waits[i]? = some w)
    (hs : w.stage = .awaiting deadline) (hnone : h.waitersOf i = []) :
    (h.enterWait i .overdue).Attended cfg := by
  have ht := ha.tells i w hw
  rw [hs] at ht
  exact ha.enterWait .overdue h.notices hw rfl (.inl hnone) (by simp) (by simp)
    (fun _ _ => rfl) ht

/-! A wait begins. -/

theorem Attended.called (ha : h.Attended cfg) (hs : w.stage = .calling)
    (ho : w.outcome = .pending) : ({ h with waits := h.waits ++ [w] } : Harness M).Attended cfg := by
  refine ha.change (ha.toOrderly.congr rfl rfl rfl)
    ⟨fun _ => rfl, fun _ hs => hs, fun _ ht => ht, fun _ hn => hn⟩ ha.queue ha.handled ha.begun fun i => ?_
  by_cases hi : i = h.waits.length
  · subst hi
    obtain ⟨hv, hx, hn⟩ := ha.nobody h.waits.length (List.getElem?_eq_none (Nat.le_refl _))
    refine .inr ⟨w, List.getElem?_concat_length, .calling hv hx ho hs, ?_⟩
    rw [hs]
    exact hn
  · refine .inl ⟨?_, rfl, rfl, rfl⟩
    change (h.waits ++ [w])[i]? = _
    rw [List.getElem?_append]
    split
    · rfl
    · rw [List.getElem?_eq_none (by rw [List.length_singleton]; omega),
        List.getElem?_eq_none (by omega)]

/-- A wait that is being made is listed. -/
theorem Attended.enlist (ha : h.Attended cfg) (hw : h.waits[i]? = some w)
    (hs : w.stage = .calling) (ho : h'.Orderly) (hn : Around h h') (hg : h'.current = some g)
    (hwaiters : h'.waiters = h.waiters ++ [w.waiter i])
    (hwaits : h'.waits = (h.enterWait i (.starting g)).waits)
    (hsame : (h'.claims, h'.permitQueue, h'.calls, h'.notices) =
      (h.claims, h.permitQueue, h.calls, h.notices)) : h'.Attended cfg := by
  simp only [Prod.mk.injEq] at hsame
  obtain ⟨hclaims, hqueue, hcalls, hnotices⟩ := hsame
  have hclaimsOf : ∀ j, h'.claimsOf j = h.claimsOf j := by
    intro j
    rw [claimsOf, hclaims, claimsOf]
  have htold : ∀ j, h'.told j = h.told j := by
    intro j
    rw [told, hnotices, told]
  refine ha.change ho hn (by rw [hclaims, hqueue]; exact ha.queue)
    (by rw [hclaims]; exact ha.handled) (by rw [hclaims, hcalls]; exact ha.begun) fun j => ?_
  by_cases hj : j = i
  · subst hj
    have ht := ha.tells j w hw
    rw [hs] at ht
    refine .inr ⟨{ w with stage := .starting g }, ?_, ?_, ?_⟩
    · rw [hwaits]
      exact waits_enterWait_self hw
    · cases ha.placed j w hw with
      | calling hv hx hpending _ =>
        refine .listed (w.waiter j) g ?_ ((hclaimsOf j).trans hx) hpending rfl hg (.inl rfl)
        rw [waitersOf_append_self (i := j) hwaiters rfl, hv]
        rfl
      | listed _ _ _ _ _ _ _ hstart =>
        have hover := WaitStage.not_over_of_listed (hstart.imp_right (·.1))
        exact (hover.1 hs).elim
      | claimed _ _ _ hb => exact (hb.called hs).elim
      | apart _ _ hcalling _ _ => exact (hcalling hs).elim
    · rw [htold]
      exact ht
  · refine .inl ⟨?_, ?_, hclaimsOf j, htold j⟩
    · rw [hwaits]
      exact waits_enterWait_of_ne hj
    · exact waitersOf_append_of_ne hwaiters rfl hj

theorem life_append {x : Generation} (hx : h'.generations = h.generations ++ [x])
    (hg : g < h.generations.length) : h'.life g = h.life g := by
  rw [life, hx, List.getElem?_append_left hg, life]

theorem generation_of_append {x y : Generation}
    (hy : (h.generations ++ [x])[g]? = some y) :
    h.generations[g]? = some y ∨ g = h.generations.length ∧ y = x := by
  rw [List.getElem?_append] at hy
  split at hy
  · exact .inl hy
  · next hle =>
    obtain ⟨hlt, heq⟩ := List.getElem?_eq_some_iff.1 hy
    rw [List.length_singleton] at hlt
    have hg : g = h.generations.length := by omega
    subst hg
    simp only [Nat.sub_self, List.getElem_cons_zero] at heq
    exact .inr ⟨rfl, heq.symm⟩

/-- A generation is created, and follows the current one. -/
theorem Orderly.create {x : Generation} (ho : h.Orderly) (hf : h.failure = none)
    (hx : x = { stage := .created h.current }) :
    ({ h with
      generations := h.generations ++ [x]
      current := some h.generations.length } : Harness M).Orderly := by
  subst hx
  have hlatest := ho.latest hf
  refine ⟨?_, ?_, ?_, ?_, ?_, ho.terminal, fun _ => List.length_append⟩
  · intro l hl
    rw [lives, List.map_append, List.mem_append] at hl
    rcases hl with hl | hl
    · exact ho.signalled l hl
    · rw [List.mem_singleton.1 hl]
      exact Lifecycle.signalled_initial
  · intro k y d hy hs
    rcases generation_of_append hy with hy | ⟨_, rfl⟩
    · exact ho.opened k y d hy hs
    · cases hs
  · intro k y hy hs
    rcases generation_of_append hy with hy | ⟨_, rfl⟩
    · exact ho.unopened k y hy hs
    · exact GenerationState.noConfusion
  · intro k y hy hs
    rcases generation_of_append hy with hy | ⟨rfl, rfl⟩
    · exact ho.first k y hy hs
    · have hc : h.current = none := Stage.created.inj hs
      rw [hc] at hlatest
      exact hlatest
  · intro k y p hy hs
    rcases generation_of_append hy with hy | ⟨rfl, rfl⟩
    · exact ho.follows k y p hy hs
    · rcases hs with hs | ⟨deadline, hs⟩
      · have hc : h.current = some p := Stage.created.inj hs
        rw [hc] at hlatest
        exact hlatest.symm
      · cases hs

theorem Attended.created (ha : h.Attended cfg) (hf : h.failure = none) (hnone : h.waiters = [])
    (hw : h.waits[i]? = some w) (hs : w.stage = .calling) :
    ({ h with
      waiters := h.waiters ++ [w.waiter i]
      generations := h.generations ++ [({ stage := .created h.current } : Generation)]
      current := some h.generations.length }.enterWait i
        (.starting h.generations.length)).Attended cfg := by
  have ho := ha.toOrderly.create hf rfl
  refine ha.enlist (g := h.generations.length) hw hs (ho.congr rfl rfl rfl)
    ⟨fun hne => (hne hnone).elim, fun g hstarted => ?_, fun _ ht => ht, fun _ hn => hn⟩ rfl rfl rfl
    rfl
  by_cases hg : g < h.generations.length
  · rw [life_append (h := h) rfl hg]
    exact hstarted
  · rw [life, List.getElem?_eq_none (Nat.le_of_not_lt hg)] at hstarted
    cases hstarted

/-! Waiters are completed, and generations change. -/

/-- Completing the waiters of a list resolves the outcomes of their waits that are pending. -/
theorem resolveAll_eq {waits : List (Wait M)} {waiters : List (Waiter M)}
    {error : Waiter M → HarnessError} :
    (resolveAll waits waiters error)[i]? = waits[i]?.map fun w =>
      match waiters.find? (·.id == i) with
      | none => w
      | some v => { w with outcome := w.outcome.resolve (.error (error v)) } := by
  induction waiters generalizing waits with
  | nil =>
    have hnone : resolveAll waits [] error = waits := rfl
    rw [hnone]
    cases waits[i]? <;> rfl
  | cons v rest ih =>
    have hstep : resolveAll waits (v :: rest) error =
        resolveAll (waits.modify v.id fun w =>
          { w with outcome := w.outcome.resolve (.error (error v)) }) rest error := rfl
    rw [hstep, ih, List.getElem?_modify, List.find?_cons]
    cases waits[i]? with
    | none => rfl
    | some w =>
      by_cases hv : v.id = i
      · simp only [hv, beq_self_eq_true, if_true, Option.map_some]
        cases rest.find? (·.id == i) with
        | none => rfl
        | some u =>
          obtain ⟨description, predicate, stage, outcome⟩ := w
          cases outcome <;> rfl
      · simp only [beq_false_of_ne hv, if_neg hv, Option.map_some]
        rfl

theorem Attended.cleared {error : Waiter M → HarnessError} (ha : h.Attended cfg)
    (he : ∀ w, (error w).isProcessing = false) :
    ({ h with waits := resolveAll h.waits h.waiters error, waiters := [] } : Harness M).Attended cfg := by
  refine ha.change (ha.toOrderly.congr rfl rfl rfl)
    ⟨fun _ => rfl, fun _ hs => hs, fun _ ht => ht, fun _ hn => hn⟩ ha.queue ha.handled ha.begun fun i => ?_
  have hfind : h.waiters.find? (·.id == i) = (h.waitersOf i).head? := (List.head?_filter).symm
  have hresolved := @resolveAll_eq M i h.waits h.waiters error
  rw [hfind] at hresolved
  have hunlisted : h.waitersOf i = [] → h.Alone
      ({ h with waits := resolveAll h.waits h.waiters error, waiters := [] } : Harness M) i := by
    intro hv
    rw [hv] at hresolved
    refine ⟨?_, hv.symm, rfl, rfl⟩
    rw [hresolved]
    cases h.waits[i]? <;> rfl
  cases hw : h.waits[i]? with
  | none => exact .inl (hunlisted (ha.nobody i hw).1)
  | some w =>
    cases ha.placed i w hw with
    | calling hv _ _ _ | claimed _ hv _ _ | apart hv _ _ _ _ => exact .inl (hunlisted hv)
    | listed v g hv hx hpending _ _ hs =>
      rw [hw, hv] at hresolved
      obtain ⟨hcalling, hended, hrefused⟩ := WaitStage.not_over_of_listed (hs.imp_right (·.1))
      refine .inr ⟨_, hresolved, .apart rfl hx hcalling ?_ fun e he => (hrefused e he).elim,
        ha.tells i w hw⟩
      rintro o (hres | ho)
      · simp only [hpending, List.head?_cons, OneShot.resolve_pending, OneShot.resolved.injEq]
          at hres
        exact ⟨_, hres.symm, he v⟩
      · exact (hended o ho).elim

/-- Waits do not depend on the lives of generations, but for the signals that they wait for. -/
theorem Attended.apartFrom (ha : h.Attended cfg) (ho : h'.Orderly) (hn : Around h h')
    (hsame : (h'.waits, h'.waiters, h'.claims, h'.permitQueue, h'.calls, h'.notices) =
      (h.waits, h.waiters, h.claims, h.permitQueue, h.calls, h.notices)) : h'.Attended cfg := by
  simp only [Prod.mk.injEq] at hsame
  obtain ⟨hwaits, hwaiters, hclaims, hqueue, hcalls, hnotices⟩ := hsame
  refine ha.change ho hn (by rw [hclaims, hqueue]; exact ha.queue)
    (by rw [hclaims]; exact ha.handled) (by rw [hclaims, hcalls]; exact ha.begun) fun i => .inl ⟨by rw [hwaits], ?_, ?_, ?_⟩
  · rw [waitersOf, hwaiters, waitersOf]
  · rw [claimsOf, hclaims, claimsOf]
  · rw [told, hnotices, told]

theorem started_changeGeneration {φ : Generation → Generation} {k : Nat}
    (hφ : ∀ x, h.generations[g]? = some x → x.life.Onward (φ x).life)
    (hs : (h.life k).started = .resolved (.ok ())) :
    ((h.changeGeneration g φ).life k).started = .resolved (.ok ()) := by
  by_cases hk : g = k
  · subst hk
    cases hx : h.generations[g]? with
    | none =>
      rw [life, hx] at hs
      cases hs
    | some x =>
      rw [life, hx] at hs
      rw [life, changeGeneration, List.getElem?_modify_eq, hx]
      exact (hφ x hx).started _ hs
  · rw [life, changeGeneration, List.getElem?_modify_ne _ _ hk]
    exact hs

theorem Orderly.changeGeneration {φ : Generation → Generation} (ho : h.Orderly)
    (hφ : ∀ x, h.generations[g]? = some x → x.Forward (φ x)) :
    (h.changeGeneration g φ).Orderly := by
  refine ⟨?_, ?_, ?_, ?_, ?_, ho.terminal, fun hf => ?_⟩
  · intro l hl
    obtain ⟨y, hy, rfl⟩ := List.mem_map.1 hl
    obtain ⟨k, hk⟩ := List.getElem?_of_mem hy
    rcases getElem?_modify_some hk with ⟨_, hk⟩ | ⟨rfl, x, hx, rfl⟩
    · exact ho.signalled _ (List.mem_of_getElem? (lives_of_some hk))
    · exact (hφ x hx).life.signalled (ho.signalled _ (List.mem_of_getElem? (lives_of_some hx)))
  · intro k y d hy hs
    rcases getElem?_modify_some hy with ⟨_, hy⟩ | ⟨rfl, x, hx, rfl⟩
    · exact ho.opened k y d hy hs
    · exact (hφ x hx).opened d hs
  · intro k y hy hs
    rcases getElem?_modify_some hy with ⟨_, hy⟩ | ⟨rfl, x, hx, rfl⟩
    · exact ho.unopened k y hy hs
    · exact (hφ x hx).unopened hs
  · intro k y hy hs
    rcases getElem?_modify_some hy with ⟨_, hy⟩ | ⟨rfl, x, hx, rfl⟩
    · exact ho.first k y hy hs
    · exact ho.first g x hx ((hφ x hx).first hs)
  · intro k y p hy hs
    rcases getElem?_modify_some hy with ⟨_, hy⟩ | ⟨rfl, x, hx, rfl⟩
    · exact ho.follows k y p hy hs
    · exact ho.follows g x p hx ((hφ x hx).follows p hs)
  · exact (List.length_modify _ _ _).trans (ho.latest hf)

/-! Claims go on. -/

/-- The wait that a claim is for. -/
theorem Attended.wait_of_claim (ha : h.Attended cfg) (hx : x ∈ h.claims) :
    ∃ w, h.waits[x.wait]? = some w ∧ h.waitersOf x.wait = [] ∧ h.claimsOf x.wait = [x] ∧
      h.Binds x w := by
  have hmem : x ∈ h.claimsOf x.wait := List.mem_filter.2 ⟨hx, beq_self_eq_true _⟩
  cases hw : h.waits[x.wait]? with
  | none =>
    rw [(ha.nobody _ hw).2.1] at hmem
    cases hmem
  | some w =>
    cases ha.placed _ w hw with
    | calling _ hnone _ _ | listed _ _ _ hnone _ _ _ _ | apart _ hnone _ _ _ =>
      rw [hnone] at hmem
      cases hmem
    | claimed y hv hy hb =>
      rw [hy, List.mem_singleton] at hmem
      subst hmem
      exact ⟨w, rfl, hv, hy, hb⟩

/-- A claim gets to another stage, perhaps with an outcome for its waiter. -/
theorem Attended.advance {outcome : OneShot (Outcome M)} (ha : h.Attended cfg)
    (hx : h.claims[c]? = some x) (hw : h.waits[x.wait]? = some w)
    (hclaims : h'.claims = restage h.claims c stage) (hparties : h'.parties = h.parties)
    (hnotices : h'.notices = h.notices) (hwait : h'.waits[x.wait]? = some { w with outcome })
    (hothers : ∀ j, j ≠ x.wait → h'.waits[j]? = h.waits[j]?)
    (hacked : ∀ tag ∈ h.broker.acked, tag ∈ h'.broker.acked)
    (hcalls : ∀ note ∈ h.calls, note ∈ h'.calls)
    (hfits : ({ x with stage } : Claim M).Fits h'.broker.acked h'.calls outcome)
    (hkept : ∀ o, w.outcome = .resolved o → outcome = .resolved o)
    (hq : Queued h'.claims h'.permitQueue)
    (hb : ∀ tag, h'.calls.countP (·.begins tag) +
        (if x.tag == tag && x.stage.hasBegun then 1 else 0) =
      h.calls.countP (·.begins tag) + if x.tag == tag && stage.hasBegun then 1 else 0) :
    h'.Attended cfg := by
  simp only [parties, Prod.mk.injEq] at hparties
  obtain ⟨hg, hc, hf, hwaiters⟩ := hparties
  have hview : ∀ j, h'.waitersOf j = h.waitersOf j := by
    intro j
    rw [waitersOf, hwaiters, waitersOf]
  have htold : ∀ j, h'.told j = h.told j := by
    intro j
    rw [told, hnotices, told]
  have hn : Around h h' := ⟨fun _ => hc, fun g hs => by rw [life, hg]; exact hs, hacked, hcalls⟩
  refine ha.change (ha.toOrderly.congr hg hc hf) hn hq (hclaims ▸ ha.handled.restage) (fun tag => ?_)
    fun j => ?_
  · have hcount := countP_modify (f := fun x : Claim M => { x with stage })
      (q := fun x => x.tag == tag && x.stage.hasBegun) hx
    have := ha.begun tag
    have := hb tag
    rw [hclaims, Intercept.restage]
    simp only at hcount
    omega
  · by_cases hj : j = x.wait
    · subst hj
      obtain ⟨w', hw', hv, hself, hbinds⟩ := ha.wait_of_claim (List.mem_of_getElem? hx)
      rw [hw] at hw'
      cases hw'
      refine .inr ⟨_, hwait, .claimed { x with stage } ((hview _).trans hv) ?_ ?_, ?_⟩
      · rw [claimsOf, hclaims]
        exact (filter_modify_of_single hx hself (beq_self_eq_true _) (beq_self_eq_true _)).2
      · exact { hbinds.mono hn with
          fits := hfits
          ended := fun o ho => hkept o (hbinds.ended o ho) }
      · rw [htold]
        exact ha.tells _ w hw
    · refine .inl ⟨hothers j hj, hview j, ?_, htold j⟩
      rw [claimsOf, hclaims]
      exact filter_modify_of_not hx (beq_false_of_ne (Ne.symm hj)) (beq_false_of_ne (Ne.symm hj))

/-- A claim whose waiter keeps its outcome. -/
theorem Attended.advance_pending (ha : h.Attended cfg) (hx : h.claims[c]? = some x)
    (hclaims : h'.claims = restage h.claims c stage) (hparties : h'.parties = h.parties)
    (hsame : (h'.notices, h'.waits, h'.broker) = (h.notices, h.waits, h.broker))
    (hcalls : ∀ note ∈ h.calls, note ∈ h'.calls)
    (hfits : ∀ outcome, x.Fits h.broker.acked h.calls outcome →
      ({ x with stage } : Claim M).Fits h.broker.acked h'.calls outcome)
    (hq : Queued h'.claims h'.permitQueue)
    (hb : ∀ tag, h'.calls.countP (·.begins tag) +
        (if x.tag == tag && x.stage.hasBegun then 1 else 0) =
      h.calls.countP (·.begins tag) + if x.tag == tag && stage.hasBegun then 1 else 0) :
    h'.Attended cfg := by
  simp only [Prod.mk.injEq] at hsame
  obtain ⟨hnotices, hwaits, hbroker⟩ := hsame
  obtain ⟨w, hw, _, _, hbinds⟩ := ha.wait_of_claim (List.mem_of_getElem? hx)
  have hwait : h'.waits[x.wait]? = some { w with outcome := w.outcome } := hwaits ▸ hw
  refine ha.advance hx hw hclaims hparties hnotices hwait (fun j _ => by rw [hwaits])
    (by rw [hbroker]; exact fun _ ht => ht) hcalls ?_ (fun _ ho => ho)
    hq hb
  rw [hbroker]
  exact hfits _ hbinds.fits

theorem Attended.queued (ha : h.Attended cfg) (hx : h.claims[c]? = some x)
    (hs : x.stage = .claimed) :
    ({ h.enterClaim c .queued with permitQueue := h.permitQueue ++ [c] } : Harness M).Attended
      cfg := by
  have hc := ha.queue.not_mem hx (by simp [hs])
  refine ha.advance_pending hx rfl rfl rfl (fun _ hn => hn) ?_ ?_ ?_
  · intro outcome hfits
    cases hfits with
    | idle _ => exact .idle (.inr (.inl rfl))
    | running _ hs' _ _ _ | acked hs' _ _ _ _ | failed _ hs' _ _ | lost _ hs' _ | brokenOff hs' _ =>
      simp [hs] at hs'
  · exact ha.queue.push hx hc
  · intro tag
    simp [hs, ClaimStage.hasBegun, enterClaim]

theorem Attended.granted {rest : List Nat} (ha : h.Attended cfg) (hqueue : h.permitQueue = c :: rest) :
    (({ h with permitQueue := rest } : Harness M).enterClaim c .granted).Attended cfg := by
  obtain ⟨x, hx, hs, hrest⟩ := (hqueue ▸ ha.queue : Queued h.claims (c :: rest)).pop
  refine ha.advance_pending hx rfl rfl rfl (fun _ hn => hn) ?_ (hrest .granted) ?_
  · intro outcome hfits
    cases hfits with
    | idle _ => exact .idle (.inr (.inr rfl))
    | running _ hs' _ _ _ | acked hs' _ _ _ _ | failed _ hs' _ _ | lost _ hs' _ | brokenOff hs' _ =>
      simp [hs] at hs'
  · intro tag
    simp [hs, ClaimStage.hasBegun, enterClaim]

theorem Attended.launched {actions : List Action} (ha : h.Attended cfg)
    (hx : h.claims[c]? = some x) (hs : x.stage = .claimed ∨ x.stage = .granted)
    (hcallback : x.callback = some actions) :
    (h.enterClaim c (.running (.spawned actions))).Attended cfg := by
  have hc := ha.queue.not_mem hx (by rcases hs with hs | hs <;> simp [hs])
  have hending : x.ending = some (Action.result actions) := by rw [Claim.ending, hcallback]; rfl
  refine ha.advance_pending hx rfl rfl rfl (fun _ hn => hn) ?_ (ha.queue.restage hc) ?_
  · intro outcome hfits
    cases hfits with
    | idle _ => exact .running (.spawned actions) rfl hending nofun nofun
    | running _ hs' _ _ _ | acked hs' _ _ _ _ | failed _ hs' _ _ | lost _ hs' _ | brokenOff hs' _ =>
      simp [hs'] at hs
  · intro tag
    rcases hs with hs | hs <;> simp [hs, ClaimStage.hasBegun, CallbackStage.hasBegun, enterClaim]

/-- The waiter of a claim without a callback is gone. -/
theorem Attended.brokeOff (ha : h.Attended cfg) (hx : h.claims[c]? = some x)
    (hs : x.stage = .claimed ∨ x.stage = .granted) (hcallback : x.callback = none) :
    ((h.complete x.wait (.error .cancelled)).enterClaim c .brokenOff).Attended cfg := by
  obtain ⟨w, hw, _, _, hb⟩ := ha.wait_of_claim (List.mem_of_getElem? hx)
  have hc := ha.queue.not_mem hx (by rcases hs with hs | hs <;> simp [hs])
  have ho := hb.fits.of_idle (hs.imp_right .inr)
  have hbegun : x.stage.hasBegun = false := by rcases hs with hs | hs <;> rw [hs] <;> rfl
  have hwait : ((h.complete x.wait (.error .cancelled)).enterClaim c .brokenOff).waits[x.wait]? =
      some { w with outcome := .resolved (.error .cancelled) } := by
    change (h.waits.modify x.wait _)[x.wait]? = _
    rw [List.getElem?_modify_eq, hw, ← OneShot.resolve_pending (.error .cancelled : Outcome M), ← ho]
    rfl
  refine ha.advance hx hw rfl rfl rfl hwait ?_ (fun _ ht => ht) (fun _ hn => hn) ?_ ?_
    (ha.queue.restage hc) fun tag => ?_
  · exact fun j hj => List.getElem?_modify_ne _ _ (Ne.symm hj)
  · exact .brokenOff rfl (by rw [Claim.ending, hcallback]; rfl)
  · intro o hres
    rw [ho] at hres
    cases hres
  · rw [hbegun]
    rfl

/-- What a callback notes as it goes on with the actions that are left. -/
theorem act_eq (h : Harness M) (c : Nat) (x : Claim M) (actions : List Action) :
    ∃ notes, h.act c x actions =
        { h.enterClaim c (.running (perform h.clock h.openGates actions)) with
          calls := h.calls ++ notes } ∧
      (∀ tag, notes.countP (·.begins tag) = 0) ∧
      (perform h.clock h.openGates actions = .returned (.ok ()) →
        .ended x.tag x.message ∈ notes) := by
  rw [act]
  split
  · exact ⟨[.ended x.tag x.message], rfl, fun _ => rfl, fun _ => List.mem_singleton.2 rfl⟩
  · next hne =>
    refine ⟨[], ?_, fun _ => rfl, fun hok => (hne hok).elim⟩
    rw [List.append_nil]
    rfl

theorem Attended.act {actions : List Action} {callback : CallbackStage} (notes : List (CallNote M))
    (ha : h.Attended cfg) (hx : h.claims[c]? = some x) (hs : x.stage = .running callback)
    (hresult : callback.result = Action.result actions)
    (hnotes : .began x.tag x.message ∈ h.calls ++ notes)
    (hb : ∀ tag, notes.countP (·.begins tag) + (if x.tag == tag && callback.hasBegun then 1 else 0) =
      if x.tag == tag then 1 else 0) :
    (Harness.act ({ h with calls := h.calls ++ notes } : Harness M) c x actions).Attended cfg := by
  obtain ⟨ended, heq, hnone, hended⟩ :=
    act_eq ({ h with calls := h.calls ++ notes } : Harness M) c x actions
  obtain ⟨hsame, hbegun⟩ := @perform_result h.clock h.openGates actions
  have hc := ha.queue.not_mem hx (by simp [hs])
  rw [heq]
  refine ha.advance_pending hx rfl rfl rfl ?_ ?_ (ha.queue.restage hc) ?_
  · exact fun note hn => List.mem_append_left _ (List.mem_append_left _ hn)
  · intro outcome hfits
    obtain ⟨rfl, hresult', _, _⟩ := hfits.of_running hs
    refine .running _ rfl (hresult'.trans (congrArg some (hresult.trans hsame.symm))) ?_ ?_
    · exact fun _ => List.mem_append_left _ hnotes
    · exact fun hok => List.mem_append_right _ (hended hok)
  · intro tag
    have := hb tag
    have := hnone tag
    simp only [List.countP_append, hs, ClaimStage.hasBegun, hbegun, Bool.and_true] at *
    omega

theorem Attended.began {actions : List Action} (ha : h.Attended cfg) (hx : h.claims[c]? = some x)
    (hs : x.stage = .running (.spawned actions)) :
    ((h.noteCall (.began x.tag x.message)).act c x actions).Attended cfg := by
  refine ha.act [.began x.tag x.message] hx hs rfl ?_ fun tag => ?_
  · exact List.mem_append_right _ (List.mem_singleton.2 rfl)
  · simp [CallbackStage.hasBegun, CallNote.begins, List.countP_cons]

theorem Attended.resumed {actions : List Action} (ha : h.Attended cfg) (hx : h.claims[c]? = some x)
    (hs : (∃ wakeAt, x.stage = .running (.sleeping wakeAt actions)) ∨
      ∃ gate, x.stage = .running (.gated gate actions)) : (h.act c x actions).Attended cfg := by
  obtain ⟨w, _, _, _, hb⟩ := ha.wait_of_claim (List.mem_of_getElem? hx)
  have heq : h = { h with calls := h.calls ++ [] } := by rw [List.append_nil]
  rw [heq]
  rcases hs with ⟨wakeAt, hs⟩ | ⟨gate, hs⟩
  all_goals
    refine ha.act [] hx hs rfl ?_ fun tag => ?_
    · rw [List.append_nil]
      exact (hb.fits.of_running hs).2.2.1 rfl
    · simp [CallbackStage.hasBegun]

theorem Attended.answered {result : Except Failure Unit} {outcome : Outcome M}
    {broker : Broker Nat} {ledger : Ledger} (ha : h.Attended cfg) (hx : h.claims[c]? = some x)
    (hs : x.stage = .running (.returned result))
    (hacked : ∀ tag ∈ h.broker.acked, tag ∈ broker.acked)
    (hanswer : x.Answer broker.acked result outcome) :
    ((({ h with broker, ledger } : Harness M).complete x.wait outcome).enterClaim c
      .settled).Attended cfg := by
  obtain ⟨w, hw, _, _, hb⟩ := ha.wait_of_claim (List.mem_of_getElem? hx)
  have hc := ha.queue.not_mem hx (by simp [hs])
  obtain ⟨ho, hresult, hbegan, hended⟩ := hb.fits.of_running hs
  have hwait : ((({ h with broker, ledger } : Harness M).complete x.wait outcome).enterClaim c
      .settled).waits[x.wait]? = some { w with outcome := .resolved outcome } := by
    change (h.waits.modify x.wait _)[x.wait]? = _
    rw [List.getElem?_modify_eq, hw, ← OneShot.resolve_pending outcome, ← ho]
    rfl
  refine ha.advance hx hw rfl rfl rfl hwait ?_ hacked (fun _ hn => hn) ?_ ?_ (ha.queue.restage hc)
    fun tag => ?_
  · exact fun j hj => List.getElem?_modify_ne _ _ (Ne.symm hj)
  · cases hanswer with
    | acked ht => exact .acked rfl hresult (hbegan rfl) (hended rfl) ht
    | lost e => exact .lost e rfl hresult
    | failed failure => exact .failed failure rfl hresult (hbegan rfl)
  · intro o hres
    rw [ho] at hres
    cases hres
  · simp only [hs, ClaimStage.hasBegun, CallbackStage.hasBegun, Bool.and_true]
    rfl

/-- No deed leaves a wait unattended. -/
theorem Attended.deed (ha : h.Attended cfg) (hd : Deed loud h h') : h'.Attended cfg := by
  cases hd with
  | quiet hs =>
    simp only [scene, Broker.account, Prod.mk.injEq] at hs
    obtain ⟨hwaits, hwaiters, hclaims, hqueue, hnotices, hcalls, hg, hc, hf, _, hbroker⟩ := hs
    refine ha.apartFrom (ha.toOrderly.congr hg hc hf) ⟨fun _ => hc, ?_, ?_, ?_⟩
      (by rw [hwaits, hwaiters, hclaims, hqueue, hcalls, hnotices])
    · intro g hs
      rw [life, hg]
      exact hs
    · rw [hbroker.2.2.2.1]
      exact fun _ ht => ht
    · rw [hcalls]
      exact fun _ hn => hn
  | booked broker ledger _ hacked =>
    exact ha.apartFrom (ha.toOrderly.congr rfl rfl rfl)
      ⟨fun _ => rfl, fun _ hs => hs, hacked, fun _ hn => hn⟩ rfl
  | received g d _ =>
    have hforward : ∀ x, h.generations[g]? = some x →
        x.Forward { x with inbound := x.inbound ++ [d] } :=
      fun x hx => ⟨.refl, id, fun d => ha.opened g x d hx, ha.unopened g x hx, id, fun _ => id⟩
    have ho : (h.receive g d).Orderly :=
      (ha.toOrderly.changeGeneration hforward).congr rfl rfl rfl
    exact ha.apartFrom ho ⟨fun _ => rfl,
      fun k hs => started_changeGeneration (fun x hx => (hforward x hx).life) hs, fun _ ht => ht,
      fun _ hn => hn⟩ rfl
  | moved g φ hφ =>
    have hforward := fun x hx => (hφ x hx).toForward
    exact ha.apartFrom (ha.toOrderly.changeGeneration hforward) ⟨fun _ => rfl,
      fun k hs => started_changeGeneration (fun x hx => (hφ x hx).life) hs, fun _ ht => ht,
      fun _ hn => hn⟩ rfl
  | cleared error he => exact ha.cleared he
  | ended e current hnone he =>
    refine ha.apartFrom ⟨ha.signalled, ha.opened, ha.unopened, ha.first, ha.follows, ?_, by simp⟩
      ⟨fun hne => (hne hnone).elim, fun _ hs => hs, ?_, fun _ hn => hn⟩ rfl
    · intro e' he'
      cases he'
      exact he
    · rw [Broker.still_dispose.acked]
      exact fun _ ht => ht
  | called w hs ho => exact ha.called hs ho
  | joined i w g hf hw hs hg =>
    exact ha.enlist hw hs (ha.toOrderly.congr rfl rfl rfl)
      ⟨fun _ => rfl, fun _ hs => hs, fun _ ht => ht, fun _ hn => hn⟩ hg rfl rfl rfl
  | created i w hf hnone hw hs => exact ha.created hf hnone hw hs
  | turnedAway i w e hw hs he => exact ha.turnedAway hw hs he
  | accepted i w g hw hs hstarted => exact ha.accepted hw hs hstarted
  | awaits i w stage hw hs => exact ha.awaits hw hs
  | overdue i w deadline hw hs hnone => exact ha.overdue hw hs hnone
  | finished i w outcome hw hs ho => exact ha.finished hw hs ho
  | expired i w deadline e hw hs hlisted he => exact ha.expired hw hs hlisted he
  | left i w hw hs => exact ha.left hw hs
  | queued c x hx hs => exact ha.queued hx hs
  | granted c rest hqueue => exact ha.granted hqueue
  | launched c x actions hx hs hcallback => exact ha.launched hx hs hcallback
  | brokeOff c x hx hs hcallback => exact ha.brokeOff hx hs hcallback
  | began c x actions hx hs => exact ha.began hx hs
  | resumed c x actions hx hs => exact ha.resumed hx hs
  | answered c x result outcome broker ledger _ hx hs hacked hanswer =>
    exact ha.answered hx hs hacked hanswer

end Harness
end Intercept
