import Intercept.Drain.Source
import Intercept.Error

/-!
Waiting until a queue is empty. One poller serves all registrations: it sleeps until one is made,
then polls in cycles that end when the queue is empty, when the source fails or when the timeout
has passed, and hands the outcome of a cycle to everybody registered by then.
-/

namespace Intercept

/-- Below this depth a queue is polled quickly. -/
def smallQueue : Nat := 100

/-- The pause after an answer, in milliseconds. -/
def pollPause (depth : Nat) : Nat := if depth < smallQueue then 100 else 1000

/-- What a registration ends with. -/
abbrev DrainOutcome := Except HarnessError Unit

/-- A registration whose outcome is still open. A caller that no longer cares leaves it behind. -/
structure DrainRegistration where
  id : String
  abandoned : Bool := false
  deriving DecidableEq, Repr

/-- Where the poller stands. -/
inductive Poller where
  /-- It sleeps until it is woken. -/
  | asleep
  /-- A poll is under way; its answer comes at `answerAt`. -/
  | polling (deadline answerAt : Nat) (result : Except BrokerError Nat)
  /-- The next poll starts at `wakeAt`. -/
  | pausing (deadline wakeAt : Nat)
  /-- No poll fits before the deadline, at which the cycle ends. -/
  | lingering (deadline : Nat)
  /-- The source has failed, or the waiter was dropped. -/
  | ended

structure DrainWaiter where
  queue : String
  timeout : Duration
  source : DepthSource
  clock : Nat := 0
  poller : Poller := .asleep
  /-- Somebody registered since the poller last woke; it will wake once for all of them. -/
  permit : Bool := false
  registrations : List DrainRegistration := []
  /-- The failure of the source, which every later registration is told. -/
  failure : Option HarnessError := none
  /-- The number of polls started. -/
  polls : Nat := 0
  /-- The outcomes handed out, in order. -/
  outcomes : List (String × DrainOutcome) := []
  dropped : Bool := false

namespace DrainWaiter

/-- The error of a cycle that reached its deadline. -/
def notDrained (w : DrainWaiter) : HarnessError := .queueNotDrained w.queue w.timeout.humanReadable

/-- Hands an outcome to everybody registered. -/
def handOut (w : DrainWaiter) (outcome : DrainOutcome) : DrainWaiter :=
  { w with
    registrations := []
    outcomes := w.outcomes ++ (w.registrations.filter (!·.abandoned)).map fun r => (r.id, outcome) }

/-- Starts a poll. -/
def poll (w : DrainWaiter) (deadline : Nat) : DrainWaiter :=
  let (answer, source) := w.source.poll
  { w with
    source
    polls := w.polls + 1
    poller := .polling deadline (w.clock + answer.delay) answer.result }

/-- Starts a cycle, unless nobody is registered. -/
def wake (w : DrainWaiter) : DrainWaiter :=
  let w := { w with permit := false }
  if w.registrations.isEmpty then w else w.poll (w.clock + w.timeout.ticks)

/-- Ends a cycle and goes back to sleep. -/
def endCycle (w : DrainWaiter) (outcome : DrainOutcome) : DrainWaiter :=
  { w.handOut outcome with poller := .asleep }

/-- Takes the answer of a poll. A failure of the source is final; a queue that is not empty is
polled again after a pause, if that is before the deadline. -/
def answered (w : DrainWaiter) (deadline : Nat) : Except BrokerError Nat → DrainWaiter
  | .error e =>
    { w.handOut (.error (.transport e)) with
      poller := .ended
      failure := some (.transport e) }
  | .ok 0 => w.endCycle (.ok ())
  | .ok depth =>
    let wakeAt := w.clock + pollPause depth
    { w with poller := if deadline ≤ wakeAt then .lingering deadline else .pausing deadline wakeAt }

/-- Whether the poller can go on now. -/
def ready (w : DrainWaiter) : Bool :=
  match w.poller with
  | .asleep => w.permit
  | .polling deadline answerAt _ => answerAt ≤ w.clock || deadline ≤ w.clock
  | .pausing _ wakeAt => wakeAt ≤ w.clock
  | .lingering deadline => deadline ≤ w.clock
  | .ended => false

/-- One step of the poller, if it is ready. An answer that comes at the deadline still counts. -/
def step (w : DrainWaiter) : DrainWaiter :=
  match w.poller with
  | .asleep => if w.permit then w.wake else w
  | .polling deadline answerAt result =>
    if answerAt ≤ w.clock then w.answered deadline result
    else if deadline ≤ w.clock then w.endCycle (.error w.notDrained)
    else w
  | .pausing deadline wakeAt => if wakeAt ≤ w.clock then w.poll deadline else w
  | .lingering deadline => if deadline ≤ w.clock then w.endCycle (.error w.notDrained) else w
  | .ended => w

/-- Takes up to `steps` steps, as long as the poller is ready. -/
def run (w : DrainWaiter) : (steps : Nat) → DrainWaiter
  | 0 => w
  | steps + 1 => if w.ready then w.step.run steps else w

/-- Lets the poller go on until it has to wait. It ends at most one cycle and begins at most one
more at one instant, which takes seven steps at the most. -/
def settle (w : DrainWaiter) : DrainWaiter := w.run 7

/-- Registers a caller and wakes the poller. -/
def register (w : DrainWaiter) (id : String) : DrainWaiter × Except HarnessError Unit :=
  match w.failure with
  | some e => (w, .error e)
  | none =>
    ({ w with registrations := w.registrations ++ [{ id }], permit := true }, .ok ())

/-- The caller no longer cares for its outcome. -/
def forget (w : DrainWaiter) (id : String) : DrainWaiter :=
  { w with registrations := w.registrations.map fun r =>
      if r.id = id then { r with abandoned := true } else r }

/-- Drops the waiter: the poller ends, and every open registration is cancelled. -/
def drop (w : DrainWaiter) : DrainWaiter :=
  if w.dropped then w
  else { w.handOut (.error .cancelled) with poller := .ended, dropped := true }

/-- Lets a millisecond pass. -/
def tick (w : DrainWaiter) : DrainWaiter := { w with clock := w.clock + 1 }.settle

/-- Lets `ms` milliseconds pass. -/
def advance (w : DrainWaiter) : (ms : Nat) → DrainWaiter
  | 0 => w
  | ms + 1 => w.tick.advance ms

end DrainWaiter
end Intercept
