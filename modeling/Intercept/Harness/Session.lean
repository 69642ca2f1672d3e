import Intercept.Harness.Act

/-!
A harness at work on a clock that moves in milliseconds. Its tasks take turns: one that can go on
runs until it has to wait, and those that can go on do so in the order in which they were woken. The
clock moves only when every task has to wait.
-/

namespace Intercept

/-- What takes steps of its own. A claim and its callback are two tasks. -/
inductive Task where
  | wait (i : Nat)
  | generation (g : Nat)
  | claim (c : Nat)
  | callback (c : Nat)
  deriving DecidableEq, Repr

namespace Harness
variable {M : Type} (cfg : Setup M)

/-- The next step of a task, unless it has to wait. -/
def step? (h : Harness M) : Task → Option (Harness M)
  | .wait i => h.stepWait? cfg i
  | .generation g => h.stepGeneration? cfg g
  | .claim c => h.stepClaim? cfg c
  | .callback c => h.stepCallback? c

def isReady (h : Harness M) (t : Task) : Bool := (h.step? cfg t).isSome

/-! The work that a harness can do at most before the clock has to move: a bound on the number of
steps. -/

def Stage.work : Stage → Nat
  | .created _ => 4
  | .waiting .. => 3
  | .subscribing .. => 2
  | .routing _ => 1
  | .ended => 0

def WaitStage.work : WaitStage M → Nat
  | .calling => 6
  | .starting _ => 1
  | .awaited => 3
  | .awaiting _ => 2
  | .overdue => 1
  | _ => 0

def CallbackStage.work : CallbackStage → Nat
  | .spawned actions => actions.length + 3
  | .sleeping _ rest | .gated _ rest => rest.length + 2
  | .returned _ => 1

/-- The work of a claim whose callback has that many actions. -/
def ClaimStage.work (actions : Nat) : ClaimStage → Nat
  | .claimed => actions + 6
  | .queued => actions + 5
  | .granted => actions + 4
  | .running callback => CallbackStage.work callback
  | .settled | .brokenOff => 0

/-- The number of actions in the longest callback that one of the first `claims` claims has. -/
def longest (callback : Handling) : (claims : Nat) → Nat
  | 0 => 0
  | claims + 1 => max (longest callback claims) ((callback claims).getD []).length

/-- The work that a delivery can cause, if it is one of the first `claims` claims that takes it. -/
def deliveryWork (claims : Nat) (d : Delivery) : Nat :=
  match cfg.format.decode? d.body with
  | none => 1
  | some m => longest (cfg.callback m) claims + 7

/-- The work of all elements of a list. -/
def total {α : Type} (work : α → Nat) : List α → Nat
  | [] => 0
  | x :: xs => work x + total work xs

/-- No wait takes more than one delivery, so there are at most as many claims as waits. -/
def work (h : Harness M) : Nat :=
  total (fun w => WaitStage.work w.stage) h.waits +
  total (fun x => Stage.work x.stage + total (deliveryWork cfg h.waits.length) x.inbound)
    h.generations +
  total (fun x => ClaimStage.work (x.callback.getD []).length x.stage) h.claims

/-- A task goes on until it has to wait, at most for the given number of steps. -/
def poll (t : Task) : (steps : Nat) → Harness M → Harness M
  | 0, h => h
  | steps + 1, h =>
    match h.step? cfg t with
    | none => h
    | some h => poll t steps h

/-- The tasks that came into being between two states. -/
def spawned (before after : Harness M) : List Task :=
  let fresh (old new : Nat) := List.range' old (new - old)
  (fresh before.waits.length after.waits.length).map .wait ++
  (fresh before.generations.length after.generations.length).map .generation ++
  (fresh before.claims.length after.claims.length).flatMap fun c => [.claim c, .callback c]

end Harness

/-- A harness and those of its tasks that have to wait. -/
structure Session (M : Type) where
  harness : Harness M
  /-- The tasks that have to wait, in the order in which they began to. -/
  idle : List Task := []

namespace Session
variable {M : Type} (cfg : Setup M)

def initial : Session M := { harness := .initial cfg }

/-- Lets the tasks of a queue go on in turn, and those that they wake behind them, for at most the
given number of turns. -/
def run : (turns : Nat) → (queue : List Task) → Session M → Session M
  | 0, queue, s => { s with idle := s.idle ++ queue }
  | _ + 1, [], s => s
  | turns + 1, t :: queue, s =>
    let h := s.harness.poll cfg t (s.harness.work cfg)
    let (woken, idle) :=
      (s.idle ++ [t] ++ s.harness.spawned h).partition (h.isReady cfg)
    run turns (queue ++ woken) ⟨h, idle⟩

/-- Lets the tasks go on until all of them have to wait. Every turn but those of the first queue
does some work, so there are at most as many turns as the bound says. -/
def settle (s : Session M) : Session M :=
  match s.idle.partition (s.harness.isReady cfg) with
  | ([], _) => s
  | (queue, idle) => run cfg (s.harness.work cfg + queue.length) queue { s with idle }

/-- The harness is put into another state from outside. -/
def put (s : Session M) (h : Harness M) : Session M :=
  settle cfg ⟨h, s.idle ++ s.harness.spawned h⟩

/-- A millisecond passes. -/
def tick (s : Session M) : Session M :=
  s.put cfg { s.harness with clock := s.harness.clock + 1 }

/-- That many milliseconds pass. -/
def advance (s : Session M) : (ms : Nat) → Session M
  | 0 => s
  | ms + 1 => (s.tick cfg).advance ms

/-- Somebody acts on the harness; there is no answer if that is not possible. -/
def perform (s : Session M) (a : Act M) : Session M × Option BrokerReply :=
  match s.harness.act? cfg a with
  | none => (s, none)
  | some (h, reply) => (s.put cfg h, some reply)

end Session
end Intercept
