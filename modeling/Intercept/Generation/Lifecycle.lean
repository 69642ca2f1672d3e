import Intercept.Error
import Intercept.OneShot

/-!
The life of one consumer, from the request for a subscription to the broker's confirmation that it
was cancelled:

    initial --start--> started --stop--> stopped --complete--> complete
       |                  |                 |
       +------stop--------+-----------------+

Any state but `errored` fails into `errored`. A consumer that completes without having been
stopped was cancelled by somebody else; that breaks the contract and fails it.
-/

namespace Intercept

inductive GenerationState where
  | initial
  | started
  | stopped
  | complete
  | errored
  deriving DecidableEq, Inhabited, Repr

namespace GenerationState

def isTerminal : GenerationState → Bool
  | complete | errored => true
  | _ => false

def name : GenerationState → String
  | initial => "initial"
  | started => "started"
  | stopped => "stopped"
  | complete => "complete"
  | errored => "errored"

/-- The name of a state as it stands in a description of the consumer. -/
def title : GenerationState → String
  | initial => "Initial"
  | started => "Started"
  | stopped => "Stopped"
  | complete => "Complete"
  | errored => "Errored"

end GenerationState

inductive GenerationEvent where
  | start
  | stop
  | complete
  | fail
  deriving DecidableEq, Repr

/-- What an event does to a state. -/
inductive Transition where
  | move (next : GenerationState)
  | ignore
  | violation
  deriving DecidableEq, Repr

def GenerationState.on (state : GenerationState) (event : GenerationEvent) : Transition :=
  match state, event with
  | .initial, .start => .move .started
  | .initial, .stop | .started, .stop => .move .stopped
  | .stopped, .complete => .move .complete
  | .initial, .complete | .started, .complete => .violation
  | .errored, .fail => .ignore
  | _, .fail => .move .errored
  | _, _ => .ignore

/-- How a signal ended: with success or with the error for those who wait for it. -/
abbrev Signal := OneShot (Except HarnessError Unit)

/-- The state of a consumer and the signals that others wait for. -/
structure Lifecycle where
  state : GenerationState := .initial
  /-- Routing must end: the consumer was stopped or has failed. -/
  stopRequested : Bool := false
  /-- The subscription was confirmed. -/
  started : Signal := .pending
  /-- The rejects that follow the cancel were issued; a following consumer may subscribe. -/
  fullyStopped : Signal := .pending
  deriving Inhabited

namespace Lifecycle

/-- The broker confirmed the subscription. -/
def setStarted (l : Lifecycle) : Lifecycle :=
  match l.state.on .start with
  | .move next => { l with state := next, started := l.started.resolve (.ok ()) }
  | _ => l

/-- Ends routing; the subscription will be cancelled. Who still waits for the start of a consumer
that is stopped before it started is told that the wait was cancelled. -/
def stop (l : Lifecycle) : Lifecycle :=
  match l.state.on .stop with
  | .move next =>
    { l with
      state := next
      stopRequested := true
      started := if l.state = .initial then l.started.resolve (.error .cancelled) else l.started }
  | _ => l

/-- Fails the consumer and every signal that is still pending. -/
def setException (l : Lifecycle) (error : HarnessError) : Lifecycle :=
  match l.state.on .fail with
  | .move next =>
    { l with
      state := next
      stopRequested := true
      started := l.started.resolve (.error error)
      fullyStopped := l.fullyStopped.resolve (.error error) }
  | _ => l

/-- The error of a consumer that somebody else cancelled. -/
def cancelledByBroker (consumer : String) (state : GenerationState) : HarnessError :=
  .generation ("consumer " ++ consumer ++ " cancelled by the broker while " ++ state.name)

/-- The broker confirmed the cancel; the rejects may go out. `fullyStopped` stays pending until
they have. -/
def setComplete (l : Lifecycle) (consumer : String) : Lifecycle × Except HarnessError Unit :=
  match l.state.on .complete with
  | .move next => ({ l with state := next }, .ok ())
  | .ignore => (l, .ok ())
  | .violation =>
    let error := cancelledByBroker consumer l.state
    (l.setException error, .error error)

/-- The rejects were issued. -/
def signalStopped (l : Lifecycle) : Lifecycle :=
  if l.state = .complete then { l with fullyStopped := l.fullyStopped.resolve (.ok ()) } else l

/-- The consumer in one line. -/
def describe (l : Lifecycle) (consumer : String) : String :=
  "ConsumerGeneration \x7b consumer_tag: " ++ Text.quote consumer ++ ", state: " ++
    l.state.title ++ " \x7d"

end Lifecycle
end Intercept
