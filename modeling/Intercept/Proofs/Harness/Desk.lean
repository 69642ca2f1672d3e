import Intercept.Proofs.Harness.Handing
import Intercept.Proofs.Harness.Moves

/-! The desk at which claims get their permits: what is done there in one move of the harness. -/

namespace Intercept
variable {M : Type}

theorem flatMap_modify {α β : Type} {xs : List α} {f : α → α} {φ : α → List β} {k : Nat}
    (hf : ∀ x, φ (f x) = φ x) : (xs.modify k f).flatMap φ = xs.flatMap φ := by
  induction xs generalizing k with
  | nil => simp
  | cons x xs ih =>
    cases k with
    | zero => simp [hf]
    | succ k => simp [ih]

theorem perm_flatMap_modify {α β : Type} {xs : List α} {f : α → α} {φ : α → List β} {k : Nat}
    {x : α} {ys zs : List β} (hx : xs[k]? = some x) (hf : (ys ++ φ (f x)).Perm (zs ++ φ x)) :
    (ys ++ (xs.modify k f).flatMap φ).Perm (zs ++ xs.flatMap φ) := by
  induction xs generalizing k with
  | nil => cases hx
  | cons a xs ih =>
    cases k with
    | zero =>
      cases hx
      simpa using hf.append_right (xs.flatMap φ)
    | succ k =>
      have hrest := (ih hx).append_left (φ a)
      have hys : (ys ++ (φ a ++ (xs.modify k f).flatMap φ)).Perm
          (φ a ++ (ys ++ (xs.modify k f).flatMap φ)) := List.perm_append_comm_assoc ..
      have hzs : (φ a ++ (zs ++ xs.flatMap φ)).Perm (zs ++ (φ a ++ xs.flatMap φ)) :=
        List.perm_append_comm_assoc ..
      simpa using hys.trans (hrest.trans hzs)

/-! A broker gives out tags only as messages are published. -/
namespace Broker
variable {κ : Type} {b : Broker κ}

theorem lastTag_onOpen {α : Type} {op : Operation} {run : Broker κ → Broker κ × Except BrokerError α}
    (hrun : ∀ b : Broker κ, (run b).1.lastTag = b.lastTag) :
    (b.onOpen op run).1.lastTag = b.lastTag := by
  unfold onOpen
  split
  · rfl
  · exact hrun _

theorem lastTag_ack {tag : Nat} : (b.ack tag).1.lastTag = b.lastTag := by
  apply lastTag_onOpen
  intro b
  split <;> rfl

theorem lastTag_nack {tag : Nat} {multiple : Bool} : (b.nack tag multiple).1.lastTag = b.lastTag := by
  apply lastTag_onOpen
  intro b
  dsimp only
  split <;> rfl

theorem lastTag_start {tag : String} {priority : Int} {sink : κ} :
    (b.start tag priority sink).1.lastTag = b.lastTag :=
  lastTag_onOpen fun _ => rfl

theorem lastTag_cancel {tag : String} : (b.cancel tag).1.lastTag = b.lastTag := by
  apply lastTag_onOpen
  intro b
  dsimp only
  split
  · rfl
  · split <;> rfl

theorem lastTag_dispose : b.dispose.lastTag = b.lastTag := still_dispose.lastTag

end Broker

/-! How a claim goes on. -/

namespace CallbackStage

/-- The actions that a callback goes on with, unless it has to wait or has ended. -/
def due? (clock : Nat) (openGates : List String) : CallbackStage → Option (List Action)
  | spawned actions => some actions
  | sleeping wakeAt rest => if wakeAt ≤ clock then some rest else none
  | gated gate rest => if openGates.contains gate then some rest else none
  | returned _ => none

end CallbackStage

namespace ClaimStage

/-- Whether the callback of a claim has begun and has not ended. -/
def isActive : ClaimStage → Bool
  | running (.sleeping ..) | running (.gated ..) => true
  | _ => false

theorem holdsPermit_of_active {stage : ClaimStage} (h : stage.isActive = true) :
    stage.holdsPermit = true := by
  cases stage <;> first | rfl | exact h

end ClaimStage

/-- What a harness keeps for its claims: the permits, the queue for them, what the callbacks wait
for, and the tags that may still be claimed. -/
structure Desk (M : Type) where
  claims : List (Claim M)
  permits : Nat
  queue : List Nat
  clock : Nat
  openGates : List String
  /-- The tags of the deliveries that were received and not yet routed. -/
  inbox : List Nat
  lastTag : Nat

namespace Desk

/-- Deliveries come in under new tags. Some of them may get lost. -/
structure Filled (d : Desk M) (count : Nat) (d' : Desk M) : Prop where
  inbox : d'.inbox.Subperm (d.inbox ++ List.range' (d.lastTag + 1) count)
  same : d' = { d with inbox := d'.inbox, lastTag := d.lastTag + count }

theorem filled_zero (d : Desk M) : d.Filled 0 d where
  inbox := by
    rw [List.range'_zero, List.append_nil]
  same := rfl

theorem Filled.trans {d d' d'' : Desk M} {m n : Nat} (hf : d.Filled m d')
    (hf' : d'.Filled n d'') : d.Filled (m + n) d'' := by
  have hlast : d'.lastTag = d.lastTag + m := congrArg Desk.lastTag hf.same
  constructor
  · have happ := hf'.inbox.trans ((List.subperm_append_right _).2 hf.inbox)
    rw [List.append_assoc, hlast, Nat.add_right_comm, List.range'_append_1] at happ
    exact happ
  · rw [hf'.same, hf.same]
    simp [Nat.add_assoc]

/-- A claim comes to its last stage, and so many permits are free before its own comes back. One that
has no callback gets there with the permit that it takes or was granted. -/
inductive Finishes (permits : Nat) (x : Claim M) : ClaimStage → Nat → Prop
  | settled (result : Except Failure Unit) : x.stage = .running (.returned result) →
    Finishes permits x .settled permits
  | brokenOff : x.stage = .granted → x.callback = none → Finishes permits x .brokenOff permits
  | atOnce : x.stage = .claimed → x.callback = none → 0 < permits →
    Finishes permits x .brokenOff (permits - 1)

/-- What is done for a claim as it goes on, or as its callback does. -/
inductive Service (d : Desk M) (c : Nat) (x : Claim M) : Desk M → Prop
  | launched (actions : List Action) : x.stage = .claimed → x.callback = some actions →
    0 < d.permits → Service d c x { d with
      claims := restage d.claims c (.running (.spawned actions))
      permits := d.permits - 1 }
  | queued : x.stage = .claimed → d.permits = 0 → Service d c x { d with
      claims := restage d.claims c .queued
      queue := d.queue ++ [c] }
  | started (actions : List Action) : x.stage = .granted → x.callback = some actions →
    Service d c x { d with claims := restage d.claims c (.running (.spawned actions)) }
  | ran (callback : CallbackStage) (actions : List Action) : x.stage = .running callback →
    callback.due? d.clock d.openGates = some actions → Service d c x { d with
      claims := restage d.claims c (.running (Harness.perform d.clock d.openGates actions)) }
  /-- The permit comes back, and nobody waits for it. -/
  | returned (stage : ClaimStage) (free : Nat) : Finishes d.permits x stage free → d.queue = [] →
    Service d c x { d with
      claims := restage d.claims c stage
      permits := free + 1 }
  /-- The permit goes to the claim that has waited longest. -/
  | handedOn (stage : ClaimStage) (free next : Nat) (rest : List Nat) :
    Finishes d.permits x stage free → d.queue = next :: rest → Service d c x { d with
      claims := restage (restage d.claims c stage) next .granted
      permits := free
      queue := rest }

/-- What one move does at the desk. A delivery that no broker sent is `forged`. -/
inductive Errand (forged : Prop) (d : Desk M) : Desk M → Prop
  | none : Errand forged d d
  | ticked : Errand forged d { d with clock := d.clock + 1 }
  | opened (gate : String) : Errand forged d { d with openGates := gate :: d.openGates }
  | filled {d' : Desk M} (count : Nat) : d.Filled count d' → Errand forged d d'
  | forged (inbox : List Nat) : forged → Errand forged d { d with inbox }
  /-- Nobody claims the delivery that is routed. -/
  | routed (inbox : List Nat) : inbox.Subperm d.inbox → Errand forged d { d with inbox }
  | claimed (x : Claim M) (inbox : List Nat) : x.stage = .claimed → (x.tag :: inbox).Perm d.inbox →
    Errand forged d { d with claims := d.claims ++ [x], inbox }
  | served {d' : Desk M} (c : Nat) (x : Claim M) : d.claims[c]? = some x → d.Service c x d' →
    Errand forged d d'

end Desk

/-- Whether a consumer is told that it receives a delivery. -/
def ConsumerEvent.isDelivery : ConsumerEvent → Bool
  | received .. => true
  | _ => false

namespace Harness
variable {cfg : Setup M} {forged : Prop} {h h' : Harness M} {c g i : Nat} {x : Claim M}
  {e : HarnessError}

/-- The tags of the deliveries that the generations have still to route. -/
def inbox (h : Harness M) : List Nat := h.generations.flatMap fun x => x.inbound.map (·.tag)

def desk (h : Harness M) : Desk M where
  claims := h.claims
  permits := h.permits
  queue := h.permitQueue
  clock := h.clock
  openGates := h.openGates
  inbox := h.inbox
  lastTag := h.broker.lastTag

/-! What is done elsewhere. -/

theorem desk_changeGeneration {f : Generation → Generation} (hf : ∀ x, (f x).inbound = x.inbound) :
    (h.changeGeneration g f).desk = h.desk := by
  have hinbox : (h.changeGeneration g f).inbox = h.inbox := flatMap_modify fun x => by rw [hf]
  simp only [desk, hinbox]
  rfl

theorem desk_changeLife {f : Lifecycle → Lifecycle} : (h.changeLife g f).desk = h.desk :=
  desk_changeGeneration fun _ => rfl

theorem desk_enter {stage : Stage} : (h.enter g stage).desk = h.desk :=
  desk_changeGeneration fun _ => rfl

theorem desk_broker {broker : Broker Nat} (hb : broker.lastTag = h.broker.lastTag) :
    ({ h with broker } : Harness M).desk = h.desk := by
  simp only [desk, hb]
  rfl

theorem desk_ack {tag : Nat} : (h.ack cfg tag).1.desk = h.desk := by
  unfold ack
  split
  · rfl
  · exact desk_broker Broker.lastTag_ack

theorem desk_nack {tag : Nat} {multiple : Bool} : (h.nack cfg tag multiple).1.desk = h.desk := by
  unfold nack
  split
  · rfl
  · exact desk_broker Broker.lastTag_nack

theorem desk_nackAll {rejects : List (Nat × Bool)} : (h.nackAll cfg rejects).1.desk = h.desk := by
  induction rejects generalizing h with
  | nil => rfl
  | cons r rest ih =>
    have hnack : (h.nack cfg r.1 r.2).1.desk = h.desk := desk_nack
    unfold nackAll
    split
    · next h₁ heq =>
      rw [heq] at hnack
      exact ih.trans hnack
    · next h₁ e heq =>
      rw [heq] at hnack
      exact hnack

theorem desk_shutDown {outcome : Outcome M} : (h.shutDown outcome).desk = h.desk := by
  obtain ⟨waits, heq⟩ := shutDown_eq h outcome
  rw [heq]
  exact desk_broker Broker.lastTag_dispose

theorem desk_fail : (h.fail e).desk = h.desk := by
  unfold fail
  split
  · rfl
  · refine desk_shutDown.trans ?_
    split
    · rfl
    · next g _ => exact desk_changeLife (h := h) (g := g) (f := (·.setException e))

theorem desk_failAll {α : Type} {xs : List α} :
    (xs.foldl (fun h _ => h.fail e) h).desk = h.desk := by
  induction xs generalizing h with
  | nil => rfl
  | cons x xs ih => exact ih.trans desk_fail

theorem desk_dispose : h.dispose.desk = h.desk := by
  unfold dispose
  split
  · rfl
  · refine desk_shutDown.trans ?_
    split
    · rfl
    · next g _ => exact desk_changeLife (h := h) (g := g) (f := (·.stop))

theorem desk_failGeneration : (h.failGeneration g e).desk = h.desk := desk_fail.trans desk_changeLife

theorem desk_teardown : (h.teardown cfg g).desk = h.desk := by
  unfold teardown
  split
  · exact desk_fail.trans desk_changeLife
  · next life hlife =>
    have hdone : ({ h.changeLife g fun _ => life with ledger := h.ledger.teardown.2 } :
        Harness M).desk = h.desk := desk_changeLife (h := h) (g := g) (f := fun _ => life)
    have hnack : ({ h.changeLife g fun _ => life with ledger := h.ledger.teardown.2 }.nackAll cfg
        h.ledger.teardown.1.rejects).1.desk = h.desk := desk_nackAll.trans hdone
    dsimp only
    split
    · next h₁ heq =>
      rw [heq] at hnack
      exact desk_changeLife.trans hnack
    · next h₁ e heq =>
      rw [heq] at hnack
      exact desk_failGeneration.trans hnack

theorem desk_confirm {consumer : Consumer Nat} : (h.confirm cfg consumer).desk = h.desk := by
  unfold confirm
  exact (desk_broker rfl).trans desk_teardown

theorem desk_confirmAll {held : List (Consumer Nat)} :
    (held.foldl (fun (h : Harness M) k => h.confirm cfg k) h).desk = h.desk := by
  induction held generalizing h with
  | nil => rfl
  | cons k held ih => exact ih.trans desk_confirm

theorem desk_settle {tag : Nat} {settlement : Settlement} :
    (h.settle tag settlement).desk = h.desk := by
  unfold settle
  split <;> rfl

theorem desk_rejectFailed {tag : Nat} : (h.rejectFailed cfg tag).desk = h.desk := by
  unfold rejectFailed
  split
  · have hnack : ((h.settle tag .alreadyNacked).nack cfg tag false).1.desk = h.desk :=
      desk_nack.trans desk_settle
    split
    · next h₁ heq =>
      rw [heq] at hnack
      exact hnack
    · next h₁ e heq =>
      rw [heq] at hnack
      exact desk_fail.trans hnack
  · exact desk_settle

theorem desk_stopIfIdle : h.stopIfIdle.desk = h.desk := by
  unfold stopIfIdle
  split
  · exact desk_changeLife
  · rfl

theorem desk_disposeIfUnowned : h.disposeIfUnowned.desk = h.desk := by
  unfold disposeIfUnowned
  split
  · exact desk_dispose
  · rfl

theorem desk_deregister : (h.deregister i).desk = h.desk := by
  unfold deregister
  split
  · exact desk_stopIfIdle
  · rfl

theorem desk_refuse : (h.refuse i e).desk = h.desk := desk_disposeIfUnowned

theorem desk_register {w : Wait M} : (h.register i w).desk = h.desk := by
  unfold register
  split
  · exact desk_refuse
  · dsimp only
    split
    · rfl
    · simp [desk, inbox, enterWait, changeWait]

theorem desk_expire : (h.expire cfg i).desk = h.desk := by
  unfold expire
  split
  · rfl
  · exact desk_stopIfIdle (h := { h with waiters := h.waiters.eraseP (·.id == i) })

theorem desk_stepWait? (hs : h.stepWait? cfg i = some h') : h'.desk = h.desk := by
  simp only [stepWait?, Option.bind_eq_bind, Option.bind_eq_some_iff] at hs
  obtain ⟨w, _, hs⟩ := hs
  split at hs
  · cases hs
    exact desk_register
  · obtain ⟨result, _, hs⟩ := Option.bind_eq_some_iff.1 hs
    split at hs
    · cases hs
      exact desk_disposeIfUnowned
    · cases hs
      exact desk_refuse.trans desk_deregister
  · cases hs
    rfl
  · split at hs
    · cases hs
      rfl
    · split at hs
      · cases hs
        exact desk_expire
      · cases hs
  · obtain ⟨outcome, _, rfl⟩ := Option.map_eq_some_iff.1 hs
    rfl
  · cases hs

theorem desk_startFailed : (h.startFailed g e).desk = h.desk := desk_failGeneration.trans desk_enter

theorem desk_attach : (h.attach cfg g).desk = h.desk := by
  have hbroker (consumer : String) :
      (h.broker.start consumer cfg.settings.priority.toInt g).1.lastTag = h.broker.lastTag :=
    Broker.lastTag_start
  unfold attach
  dsimp only
  split
  · next broker heq =>
    have hlast := heq ▸ hbroker _
    exact desk_changeLife.trans (desk_enter.trans (desk_broker hlast))
  · next broker e heq =>
    have hlast := heq ▸ hbroker _
    exact desk_startFailed.trans (desk_broker hlast)

theorem desk_subscribe : (h.subscribe cfg g).desk = h.desk := by
  unfold subscribe
  split
  · exact desk_teardown.trans desk_enter
  · have hasked {f : Generation → Generation} (hf : ∀ x, (f x).inbound = x.inbound) :
        ({ h with subscriptions := h.subscriptions ++ [g] }.changeGeneration g f).desk = h.desk :=
      desk_changeGeneration hf
    dsimp only
    split
    · exact desk_attach.trans (hasked fun _ => rfl)
    · exact desk_startFailed.trans (hasked fun _ => rfl)
    · exact desk_enter.trans (hasked fun _ => rfl)

theorem desk_leave : (h.leave cfg g).desk = h.desk := by
  have hleft (broker : Broker Nat) (hb : broker.lastTag = h.broker.lastTag) :
      ({ h.enter g .ended with cancelCalls := h.cancelCalls + 1, broker } : Harness M).desk =
        h.desk :=
    (desk_broker (h := h.enter g .ended) hb).trans desk_enter
  have hbroker (consumer : String) : (h.broker.cancel consumer).1.lastTag = h.broker.lastTag :=
    Broker.lastTag_cancel
  unfold leave
  dsimp only
  split
  · exact desk_fail.trans (hleft h.broker rfl)
  · split <;> rename_i heq <;> replace heq := hleft _ (heq ▸ hbroker _)
    · exact desk_fail.trans heq
    · exact heq
    · exact desk_confirm.trans heq

theorem desk_expireAll : (h.expireAll cfg g).desk = h.desk := by
  obtain ⟨waits, heq⟩ := foldl_complete h h.waiters fun w =>
    .error (w.timeoutError (w.report .unackedMessage cfg.settings.timeout cfg.context))
  unfold expireAll
  rw [heq]
  exact desk_changeLife

/-! Deliveries. -/

theorem desk_receive {d : Delivery} : ∃ inbox, (h.receive g d).desk = { h.desk with inbox } ∧
    inbox.Subperm (h.inbox ++ [d.tag]) := by
  refine ⟨(h.receive g d).inbox, rfl, ?_⟩
  cases hx : h.generations[g]? with
  | none =>
    have hsame : (h.receive g d).generations = h.generations :=
      List.modify_eq_self (List.getElem?_eq_none_iff.1 hx)
    rw [inbox, hsame]
    exact (List.sublist_append_left ..).subperm
  | some x =>
    have hperm : ([] ++ (h.receive g d).inbox).Perm ([d.tag] ++ h.inbox) := by
      apply perm_flatMap_modify hx
      rw [List.map_append]
      exact List.perm_append_singleton ..
    exact (hperm.trans List.perm_append_comm).subperm

theorem filled_publish {body : Body} : ∃ count, h.desk.Filled count (h.publish body).1.desk := by
  unfold publish Broker.publish
  split <;> rename_i heq <;> split at heq <;> cases heq
  · exact ⟨0, h.desk.filled_zero⟩
  · next k _ =>
    obtain ⟨inbox, heq, hin⟩ := desk_receive (h := ({ h with broker := { h.broker with
      lastTag := h.broker.lastTag + 1
      unsettled := h.broker.unsettled ++ [(h.broker.lastTag + 1, body)] } } : Harness M))
      (g := k.sink) (d := ⟨h.broker.lastTag + 1, body⟩)
    refine ⟨1, ?_, ?_⟩
    · rw [heq]
      exact hin
    · rw [heq]
      rfl

theorem filled_publishAll {bodies : List Body} :
    ∃ count, h.desk.Filled count (h.publishAll bodies).1.desk := by
  induction bodies generalizing h with
  | nil => exact ⟨0, h.desk.filled_zero⟩
  | cons body rest ih =>
    obtain ⟨m, hf⟩ : ∃ count, h.desk.Filled count (h.publish body).1.desk := filled_publish
    obtain ⟨n, hf'⟩ := ih (h := (h.publish body).1)
    exact ⟨m + n, hf.trans hf'⟩

/-- A consumer hands out a delivery, which a waiter may claim. -/
theorem errand_dispatched {d : Delivery} {rest : List Delivery} {x : Generation}
    {deadline : Option Nat} (hx : h.generations[g]? = some x) (hin : x.inbound = d :: rest)
    (hd : h.Dispatched cfg g deadline d rest h') : h.desk.Errand forged h'.desk := by
  have hserved (deadline : Option Nat) :
      (d.tag :: (h.served g rest deadline).inbox).Perm h.inbox := by
    have hperm : ([d.tag] ++ (h.served g rest deadline).inbox).Perm ([] ++ h.inbox) := by
      apply perm_flatMap_modify hx
      rw [hin]
      exact .refl _
    exact hperm
  cases hd with
  | unclaimed =>
    exact .routed _ ((List.sublist_cons_self ..).subperm.trans (hserved _).subperm)
  | claimed m before v behind => exact .claimed (v.claim g d m (cfg.callback m h.claims.length)) _ rfl (hserved none)

theorem errand_route? {deadline : Option Nat} (hs : h.route? cfg g deadline = some h') :
    h.desk.Errand forged h'.desk := by
  simp only [route?, Option.bind_eq_bind, Option.bind_eq_some_iff] at hs
  obtain ⟨x, hx, hs⟩ := hs
  split at hs
  · cases hs
    exact desk_leave (h := h) ▸ .none
  · split at hs
    · cases hs
      exact (desk_leave.trans desk_expireAll : _ = h.desk) ▸ .none
    · split at hs
      · next d rest hin =>
        obtain ⟨h₁, hd, heq⟩ := dispatch_dispatched cfg h deadline d rest
        have herrand : h.desk.Errand forged h₁.desk := errand_dispatched hx hin hd
        cases hs
        rw [heq]
        split
        · exact desk_changeLife (h := h₁) ▸ herrand
        · exact herrand
      · split at hs
        · cases hs
        · cases hs
          exact desk_leave (h := h) ▸ .none

theorem errand_stepGeneration? (hs : h.stepGeneration? cfg g = some h') :
    h.desk.Errand forged h'.desk := by
  simp only [stepGeneration?, Option.bind_eq_bind, Option.bind_eq_some_iff] at hs
  obtain ⟨x, _, hs⟩ := hs
  have hsubscribe : (h.subscribe cfg g).desk = h.desk := desk_subscribe
  have hfailed (e : HarnessError) : (h.startFailed g e).desk = h.desk := desk_startFailed
  split at hs
  · cases hs
    exact hsubscribe ▸ .none
  · cases hs
    exact desk_enter (h := h) ▸ .none
  · split at hs
    · cases hs
      exact hsubscribe ▸ .none
    · cases hs
      exact hfailed _ ▸ .none
    · split at hs
      · cases hs
        exact hfailed _ ▸ .none
      · cases hs
  · split at hs
    · split at hs
      · cases hs
        exact desk_attach (h := h) ▸ .none
      · cases hs
        exact hfailed _ ▸ .none
    · split at hs
      · cases hs
        exact hfailed _ ▸ .none
      · cases hs
  · exact errand_route? hs
  · cases hs

/-! Claims and their callbacks. -/

/-- Whatever stage a claim leaves with, it gives its permit back. -/
theorem service_returnPermit {h₁ : Harness M} {stage : ClaimStage} {free : Nat}
    (hl : Desk.Finishes h.permits x stage free) (hdesk : h₁.desk = { h.desk with permits := free }) :
    h.desk.Service c x ((h₁.enterClaim c stage).returnPermit).desk := by
  have hsame : h₁.permitQueue = h.permitQueue := congrArg Desk.queue hdesk
  unfold returnPermit
  split
  · next hqueue =>
    change h.desk.Service c x { h₁.desk with
      claims := restage h₁.desk.claims c stage, permits := h₁.desk.permits + 1 }
    rw [hdesk]
    exact .returned stage free hl (hsame.symm.trans hqueue)
  · next next rest hqueue =>
    change h.desk.Service c x { h₁.desk with
      claims := restage (restage h₁.desk.claims c stage) next .granted, queue := rest }
    rw [hdesk]
    exact .handedOn stage free next rest hl (hsame.symm.trans hqueue)

/-- A claim that was granted a permit has a callback to run, or gives the permit back. -/
theorem service_launch (hs : x.stage = .granted) : h.desk.Service c x (h.launch c x).desk := by
  unfold launch
  split
  · next actions hcallback => exact .started actions hs hcallback
  · next hnone => exact service_returnPermit (.brokenOff hs hnone) rfl

theorem service_takePermit (hs : x.stage = .claimed) :
    h.desk.Service c x (h.takePermit c x).desk := by
  unfold takePermit
  split
  · next hpos =>
    unfold launch
    split
    · next actions hcallback => exact .launched actions hs hcallback hpos
    · next hnone => exact service_returnPermit (.atOnce hs hnone hpos) rfl
  · next hzero => exact .queued hs (Nat.eq_zero_of_not_pos hzero)

/-- Whatever became of a callback, its claim gives the permit back. -/
theorem service_conclude {result : Except Failure Unit} (hs : x.stage = .running (.returned result)) :
    h.desk.Service c x (h.conclude cfg c x result).desk := by
  unfold conclude
  refine service_returnPermit (.settled result hs) ?_
  cases result with
  | ok =>
    have hack : (h.ack cfg x.tag).1.desk = h.desk := desk_ack
    dsimp only
    split
    · next h₁ heq =>
      rw [heq] at hack
      exact desk_settle.trans hack
    · next h₁ e heq =>
      rw [heq] at hack
      exact desk_fail.trans hack
  | error failure => exact desk_rejectFailed

theorem service_stepClaim? (hs : h.stepClaim? cfg c = some h') :
    ∃ x, h.claims[c]? = some x ∧ h.desk.Service c x h'.desk := by
  simp only [stepClaim?, Option.bind_eq_bind, Option.bind_eq_some_iff] at hs
  obtain ⟨x, hx, hs⟩ := hs
  refine ⟨x, hx, ?_⟩
  split at hs
  · next hst =>
    cases hs
    exact service_takePermit hst
  · next hst =>
    cases hs
    exact service_launch hst
  · next result hst =>
    cases hs
    exact service_conclude hst
  · cases hs

theorem desk_act {actions : List Action} : (h.act c x actions).desk = { h.desk with
    claims := restage h.claims c (.running (perform h.clock h.openGates actions)) } := by
  unfold act
  dsimp only
  split <;> rfl

/-- A callback goes on if it does not have to wait. -/
theorem stepCallback?_of_due {callback : CallbackStage} {actions : List Action}
    (hx : h.claims[c]? = some x) (hs : x.stage = .running callback)
    (hdue : callback.due? h.clock h.openGates = some actions) : ∃ h', h.stepCallback? c = some h' ∧
      h'.desk = { h.desk with
        claims := restage h.claims c (.running (perform h.clock h.openGates actions)) } := by
  simp only [stepCallback?, hx, hs, Option.bind_eq_bind, Option.bind_some]
  cases callback with
  | spawned actions =>
    cases hdue
    exact ⟨_, rfl, desk_act⟩
  | sleeping wakeAt rest =>
    obtain ⟨hwake, heq⟩ := Option.ite_none_right_eq_some.1 hdue
    cases heq
    exact ⟨_, if_pos hwake, desk_act⟩
  | gated gate rest =>
    obtain ⟨hopen, heq⟩ := Option.ite_none_right_eq_some.1 hdue
    cases heq
    exact ⟨_, if_pos hopen, desk_act⟩
  | returned result => cases hdue

theorem due_of_stepCallback? (hs : h.stepCallback? c = some h') : ∃ x callback actions,
    h.claims[c]? = some x ∧ x.stage = .running callback ∧
      callback.due? h.clock h.openGates = some actions := by
  simp only [stepCallback?, Option.bind_eq_bind, Option.bind_eq_some_iff] at hs
  obtain ⟨x, hx, hs⟩ := hs
  split at hs
  · next actions hst => exact ⟨x, _, actions, hx, hst, rfl⟩
  · next wakeAt rest hst =>
    obtain ⟨hwake, _⟩ := Option.ite_none_right_eq_some.1 hs
    exact ⟨x, _, rest, hx, hst, if_pos hwake⟩
  · next gate rest hst =>
    obtain ⟨hopen, _⟩ := Option.ite_none_right_eq_some.1 hs
    exact ⟨x, _, rest, hx, hst, if_pos hopen⟩
  · cases hs

theorem service_stepCallback? (hs : h.stepCallback? c = some h') :
    ∃ x, h.claims[c]? = some x ∧ h.desk.Service c x h'.desk := by
  obtain ⟨x, callback, actions, hx, hst, hdue⟩ := due_of_stepCallback? hs
  obtain ⟨h₁, hs₁, hdesk⟩ := stepCallback?_of_due hx hst hdue
  refine ⟨x, hx, ?_⟩
  rw [hs₁] at hs
  cases hs
  rw [hdesk]
  exact .ran callback actions hst hdue

/-! Moves. -/

theorem errand_step {t : Task} (hs : h.step? cfg t = some h') : h.desk.Errand forged h'.desk := by
  cases t with
  | wait i => exact desk_stepWait? (i := i) hs ▸ .none
  | generation g => exact errand_stepGeneration? hs
  | claim c =>
    obtain ⟨x, hx, hservice⟩ := service_stepClaim? hs
    exact .served c x hx hservice
  | callback c =>
    obtain ⟨x, hx, hservice⟩ := service_stepCallback? hs
    exact .served c x hx hservice

theorem errand_handle {event : ConsumerEvent} (hf : event.isDelivery = true → forged) :
    h.desk.Errand forged (h.handle cfg g event).desk := by
  cases event with
  | received tag body =>
    obtain ⟨inbox, heq, _⟩ := desk_receive (h := h) (g := g) (d := ⟨tag, body⟩)
    rw [handle, heq]
    exact .forged inbox (hf rfl)
  | cancelled => exact desk_teardown (h := h) ▸ .none
  | failed e => exact desk_fail (h := h) ▸ .none

theorem desk_giveUp (hs : h.giveUp i = some h') : h'.desk = h.desk := by
  simp only [giveUp, Option.bind_eq_bind, Option.bind_eq_some_iff] at hs
  obtain ⟨w, _, hs⟩ := hs
  have hleft : ((h.deregister i).enterWait i .dropped).desk = h.desk := desk_deregister
  split at hs <;> cases hs
  · exact desk_disposeIfUnowned
  · exact desk_disposeIfUnowned.trans hleft
  · exact hleft
  · exact hleft
  · exact hleft
  · exact hleft
  · rfl

theorem desk_await (hs : h.await i = some h') : h'.desk = h.desk := by
  simp only [await, Option.bind_eq_bind, Option.bind_eq_some_iff] at hs
  obtain ⟨w, _, hs⟩ := hs
  split at hs <;> cases hs
  rfl

end Harness

/-- Whether somebody hands a consumer a delivery that no broker sent. -/
def Act.forges : Act M → Bool
  | .notify _ event => event.isDelivery
  | _ => false

theorem Act.genuine_of_own {a : Act M} (ha : a.isForeign = false) : a.forges = false := by
  cases a <;> first | rfl | cases ha

namespace Harness
variable {cfg : Setup M} {h h' : Harness M}

theorem errand_act {forged : Prop} {a : Act M} {reply : BrokerReply}
    (hf : a.forges = true → forged) (ha : h.act? cfg a = some (h', reply)) :
    h.desk.Errand forged h'.desk := by
  cases a with
  | call description predicate =>
    simp only [act?] at ha
    split at ha <;> cases ha
    exact .none
  | await i =>
    obtain ⟨h₁, hs, heq⟩ := Option.map_eq_some_iff.1 ha
    cases heq
    exact desk_await hs ▸ .none
  | giveUp i =>
    obtain ⟨h₁, hs, heq⟩ := Option.map_eq_some_iff.1 ha
    cases heq
    exact desk_giveUp hs ▸ .none
  | publish body =>
    cases ha
    obtain ⟨count, hf⟩ : ∃ count, h.desk.Filled count (h.publish body).1.desk := filled_publish
    exact .filled count hf
  | publishAll bodies =>
    cases ha
    obtain ⟨count, hf⟩ : ∃ count, h.desk.Filled count (h.publishAll bodies).1.desk :=
      filled_publishAll
    exact .filled count hf
  | openGate gate =>
    cases ha
    exact .opened gate
  | hold =>
    cases ha
    exact .none
  | release =>
    cases ha
    have hreleased : ({ h with broker := h.broker.release.1 } : Harness M).desk = h.desk :=
      desk_broker rfl
    exact (desk_confirmAll.trans hreleased : (h.broker.held.foldl (fun (h : Harness M) k =>
      h.confirm cfg k) { h with broker := h.broker.release.1 }).desk = h.desk) ▸ .none
  | failConnection reason =>
    cases ha
    exact desk_failAll (h := h) ▸ .none
  | consumeBacklog count =>
    cases ha
    exact .none
  | ack tag =>
    cases ha
    exact desk_broker (h := h) Broker.lastTag_ack ▸ .none
  | nack tag multiple =>
    cases ha
    exact desk_broker (h := h) Broker.lastTag_nack ▸ .none
  | disposeBroker =>
    cases ha
    exact desk_broker (h := h) Broker.lastTag_dispose ▸ .none
  | notify consumer event =>
    simp only [act?, Option.bind_eq_bind, Option.bind_eq_some_iff] at ha
    obtain ⟨_, _, g, _, _, _, heq⟩ := ha
    cases heq
    exact errand_handle hf
  | dispose =>
    simp only [act?] at ha
    split at ha <;> cases ha
    exact desk_dispose (h := h) ▸ .none
  | drop =>
    cases ha
    exact desk_disposeIfUnowned (h := ({ h with dropped := true } : Harness M)) ▸ .none

/-- What a move does at the desk. -/
theorem errand_of_moves {allowed : Act M → Prop} {forged : Prop}
    (hforged : ∀ a, allowed a → a.forges = true → forged) (hm : Moves cfg allowed h h') :
    h.desk.Errand forged h'.desk := by
  cases hm with
  | act a hallowed hact => exact errand_act (hforged a hallowed) hact
  | step t hs => exact errand_step hs
  | tick => exact .ticked

end Harness
end Intercept
