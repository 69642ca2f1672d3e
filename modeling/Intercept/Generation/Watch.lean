import Intercept.Generation.Lifecycle

/-!
Those who wait for the signals of a consumer. A watcher looks at its signal after every operation
and leaves with the first resolution it sees.
-/

namespace Intercept

inductive LifecycleOp where
  | setStarted
  | stop
  | setComplete
  | signalStopped
  | setException (error : HarnessError)
  deriving Repr

/-- One operation on a consumer, with the answer of the only one that can fail. -/
def Lifecycle.apply (l : Lifecycle) (consumer : String) :
    LifecycleOp → Lifecycle × Option (Except HarnessError Unit)
  | .setStarted => (l.setStarted, none)
  | .stop => (l.stop, none)
  | .setComplete => let (l, r) := l.setComplete consumer; (l, some r)
  | .signalStopped => (l.signalStopped, none)
  | .setException error => (l.setException error, none)

inductive SignalKind where
  | started
  | fullyStopped
  deriving DecidableEq, Repr

def Lifecycle.signal (l : Lifecycle) : SignalKind → Signal
  | .started => l.started
  | .fullyStopped => l.fullyStopped

structure Watcher where
  id : String
  kind : SignalKind
  deriving DecidableEq, Repr

/-- A consumer and those who wait for it, in the order in which they began to wait. -/
structure Watched where
  consumer : String
  life : Lifecycle := {}
  watchers : List Watcher := []

namespace Watched

/-- What a watcher is told, if its signal is resolved. -/
def told (w : Watched) (watcher : Watcher) : Option (String × Except HarnessError Unit) :=
  (w.life.signal watcher.kind).get?.map (watcher.id, ·)

/-- Lets every watcher look at its signal; those who are told something leave. -/
def look (w : Watched) : Watched × List (String × Except HarnessError Unit) :=
  ({ w with watchers := w.watchers.filter fun x => (w.told x).isNone }, w.watchers.filterMap w.told)

def apply (w : Watched) (op : LifecycleOp) : Watched × Option (Except HarnessError Unit) :=
  let (life, r) := w.life.apply w.consumer op
  ({ w with life }, r)

def watch (w : Watched) (id : String) (kind : SignalKind) : Watched :=
  { w with watchers := w.watchers ++ [⟨id, kind⟩] }

end Watched
end Intercept
