import Intercept.Broker.Basic
import Intercept.Generation.Lifecycle
import Intercept.Harness.Setup
import Intercept.Ledger.Basic
import Intercept.Waiter.Roster

/-!
The state of a harness in the middle of its work, together with the broker it is a client of.

Callers come with a *wait*. While a waiter is registered, a *generation* of the consumer steals the
messages of the queue; once no waiter is left it stops, and what it had not handed out goes back to
the backup consumers. A delivery that a waiter takes becomes a *claim*, whose callback runs under a
permit. Waits, generations and claims are numbered in the order in which they begin.
-/

namespace Intercept

structure Delivery where
  tag : Nat
  body : Body
  deriving DecidableEq, Repr

/-- Where the consumer of a generation stands. -/
inductive Stage where
  /-- It has not looked yet at the generation before it. -/
  | created (previous : Option Nat)
  /-- It waits for the rejects of the generation before it. -/
  | waiting (previous deadline : Nat)
  /-- It has asked for a subscription; the answer comes at `answerAt`, and may be an error. -/
  | subscribing (answerAt deadline : Nat) (error : Option BrokerError)
  /-- It hands deliveries to the waiters. A delivery that nobody took must be settled by the
  deadline. -/
  | routing (unmatchedDeadline : Option Nat)
  | ended
  deriving DecidableEq, Repr

def Stage.isSubscribing : Stage → Bool
  | subscribing .. => true
  | _ => false

/-- One consumer, from its creation until its deliveries are settled. -/
structure Generation where
  life : Lifecycle := {}
  stage : Stage
  /-- The consumer tag, once it has asked for a subscription. -/
  consumer : String := ""
  /-- The deliveries that were received and not yet routed. -/
  inbound : List Delivery := []

/-- Where the call of a caller stands. -/
inductive WaitStage (M : Type) where
  /-- The wait is not registered yet. -/
  | calling
  /-- It is registered and waits for the start of the consumer. -/
  | starting (generation : Nat)
  /-- The registration failed. -/
  | refused (error : HarnessError)
  /-- The caller may await the outcome. -/
  | registered
  /-- The caller has begun to await the outcome, and the deadline is not set yet. -/
  | awaited
  | awaiting (deadline : Nat)
  /-- The deadline passed, but a delivery had been claimed by then; its outcome decides. -/
  | overdue
  | ended (outcome : Outcome M)
  /-- The caller gave up. -/
  | dropped

/-- A caller's wait for a message. -/
structure Wait (M : Type) where
  description : String
  predicate : M → Verdict
  stage : WaitStage M := .calling
  /-- What the waiter was completed with. -/
  outcome : OneShot (Outcome M) := .pending

namespace WaitStage
variable {M : Type}

/-- Whether the registration is under way. -/
def isRegistering : WaitStage M → Bool
  | calling | starting _ => true
  | _ => false

/-- Whether the outcome is being awaited. -/
def isAwaiting : WaitStage M → Bool
  | awaited | awaiting _ | overdue => true
  | _ => false

end WaitStage

/-- Where a running callback stands. -/
inductive CallbackStage where
  | spawned (actions : List Action)
  | sleeping (wakeAt : Nat) (rest : List Action)
  | gated (gate : String) (rest : List Action)
  | returned (result : Except Failure Unit)

/-- Where a claim stands. -/
inductive ClaimStage where
  /-- It has not asked for a permit yet. -/
  | claimed
  | queued
  /-- It was handed a permit, and its callback does not run yet. -/
  | granted
  | running (callback : CallbackStage)
  /-- The delivery is settled and the waiter completed. -/
  | settled
  /-- There was no callback to run, and nobody settles the delivery. -/
  | brokenOff

/-- Whether a permit is held. -/
def ClaimStage.holdsPermit : ClaimStage → Bool
  | granted | running _ => true
  | _ => false

/-- A delivery that a waiter took. -/
structure Claim (M : Type) where
  tag : Nat
  /-- The wait whose waiter took the delivery. -/
  wait : Nat
  generation : Nat
  message : M
  /-- The actions of the callback, if the function that is to hand it over does not panic. -/
  callback : Option (List Action)
  stage : ClaimStage := .claimed

/-- What a callback notes. -/
inductive CallNote (M : Type) where
  | began (tag : Nat) (message : M)
  | ended (tag : Nat) (message : M)

/-- What a caller is told. -/
inductive Notice (M : Type) where
  | registered
  | result (outcome : Outcome M)

structure Harness (M : Type) where
  /-- The time in milliseconds. -/
  clock : Nat := 0
  broker : Broker Nat := {}
  /-- The number of cancels asked for. -/
  cancelCalls : Nat := 0
  ledger : Ledger := {}
  /-- The waiters that have not matched, in the order of their registration. -/
  waiters : List (Waiter M) := []
  waits : List (Wait M) := []
  generations : List Generation := []
  /-- The generation that new waits join, or that a new generation follows. -/
  current : Option Nat := none
  /-- The generations that asked for a subscription, in this order. -/
  subscriptions : List Nat := []
  /-- The failure that made the harness useless, or that it was disposed. -/
  failure : Option HarnessError := none
  claims : List (Claim M) := []
  /-- The number of permits that nobody holds. -/
  permits : Nat
  /-- The claims that wait for a permit, in the order in which they asked for it. -/
  permitQueue : List Nat := []
  openGates : List String := []
  /-- The owner has dropped the harness; registrations under way keep it for a while. -/
  dropped : Bool := false
  /-- What the callbacks noted. -/
  calls : List (CallNote M) := []
  /-- What the callers were told, each with the number of its wait. -/
  notices : List (Nat × Notice M) := []

namespace Harness
variable {M : Type}

def initial (cfg : Setup M) : Harness M where
  permits := cfg.settings.permits

def life (h : Harness M) (g : Nat) : Lifecycle :=
  (h.generations[g]?.map (·.life)).getD {}

def changeGeneration (h : Harness M) (g : Nat) (f : Generation → Generation) : Harness M :=
  { h with generations := h.generations.modify g f }

def changeLife (h : Harness M) (g : Nat) (f : Lifecycle → Lifecycle) : Harness M :=
  h.changeGeneration g fun x => { x with life := f x.life }

def enter (h : Harness M) (g : Nat) (stage : Stage) : Harness M :=
  h.changeGeneration g fun x => { x with stage }

def changeWait (h : Harness M) (i : Nat) (f : Wait M → Wait M) : Harness M :=
  { h with waits := h.waits.modify i f }

def enterWait (h : Harness M) (i : Nat) (stage : WaitStage M) : Harness M :=
  h.changeWait i fun w => { w with stage }

def enterClaim (h : Harness M) (c : Nat) (stage : ClaimStage) : Harness M :=
  { h with claims := h.claims.modify c fun x => { x with stage } }

/-- Completes the waiter of a wait. -/
def complete (h : Harness M) (i : Nat) (outcome : Outcome M) : Harness M :=
  h.changeWait i fun w => { w with outcome := w.outcome.resolve outcome }

/-- Tells a caller something. -/
def tell (h : Harness M) (i : Nat) (notice : Notice M) : Harness M :=
  { h with notices := h.notices ++ [(i, notice)] }

/-- A callback notes something. -/
def noteCall (h : Harness M) (note : CallNote M) : Harness M :=
  { h with calls := h.calls ++ [note] }

/-- The state of the generation that new waits join. -/
def currentState (h : Harness M) : Option GenerationState :=
  h.current.map fun g => (h.life g).state

/-- Whether the event handlers of a generation's consumer still exist. -/
def handles (cfg : Setup M) (h : Harness M) (g : Nat) : Bool :=
  cfg.keepsHandlers && h.subscriptions.contains g ||
    (h.broker.consumers ++ h.broker.held).any (·.sink == g) ||
    h.generations[g]?.any (·.stage.isSubscribing)

end Harness
end Intercept
