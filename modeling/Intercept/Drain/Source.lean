import Intercept.Broker.Basic

/-!
Where a poller learns how many messages a queue holds.
-/

namespace Intercept

/-- The answer to one poll and the time it takes, in milliseconds. -/
structure DepthAnswer where
  delay : Nat := 0
  result : Except BrokerError Nat

/-- A source of queue depths. -/
inductive DepthSource where
  /-- Answers in a given order, of which the last one repeats; without any, the queue is empty. -/
  | script (answers : List DepthAnswer)
  /-- The backlog of a broker. -/
  | backlog (broker : Broker Unit)

namespace DepthSource

/-- The answer to the poll that starts now. -/
def poll : DepthSource → DepthAnswer × DepthSource
  | script [] => ({ result := .ok 0 }, script [])
  | script [last] => (last, script [last])
  | script (first :: rest) => (first, script rest)
  | backlog b => ({ result := .ok b.backlog.length }, backlog b)

/-- Adds answers behind the last one, which then no longer repeats. -/
def push (s : DepthSource) (more : List DepthAnswer) : DepthSource :=
  match s with
  | script answers => script (answers ++ more)
  | backlog b => backlog b

/-- Publishes a message to the broker behind the source. -/
def publish (s : DepthSource) (body : Body) : DepthSource × Option Nat :=
  match s with
  | script answers => (script answers, none)
  | backlog b =>
    let (b, delivery) := b.publish body
    (backlog b, delivery.map (·.1))

/-- Lets the backup consumers of the broker behind the source take messages. -/
def consumeBacklog (s : DepthSource) (count : Nat) : DepthSource × Nat :=
  match s with
  | script answers => (script answers, 0)
  | backlog b =>
    let (b, taken) := b.consumeBacklog count
    (backlog b, taken)

end DepthSource
end Intercept
