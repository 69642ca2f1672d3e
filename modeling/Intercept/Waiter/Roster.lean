import Intercept.OneShot
import Intercept.Waiter.Basic

/-!
A roster of waiters and of the callers behind them. Each waiter is completed at most once; its
caller leaves with the outcome, or learns that the waiter was dropped without one.
-/

namespace Intercept

/-- What a wait ends with. -/
abbrev Outcome (M : Type) := Except HarnessError M

/-- A waiter that a caller waits behind. -/
structure Ticket (M : Type) where
  serial : Nat
  waiter : Waiter M
  outcome : OneShot (Outcome M) := .pending

/-- A caller that still waits for the outcome of a ticket. -/
structure Caller where
  serial : Nat
  id : Nat
  deriving DecidableEq, Repr

structure Roster (M : Type) where
  tickets : List (Ticket M) := []
  /-- The callers in the order in which they came. -/
  callers : List Caller := []
  /-- The serial number of the next ticket. -/
  next : Nat := 0

namespace Roster
variable {M : Type}

/-- Adds a waiter at the end. -/
def add (r : Roster M) (id : Nat) (description : String) (predicate : M → Verdict) : Roster M where
  tickets := r.tickets ++ [{ serial := r.next, waiter := { id, description, predicate } }]
  callers := r.callers ++ [⟨r.next, id⟩]
  next := r.next + 1

/-- Changes the ticket at an index. -/
def update (r : Roster M) (index : Nat) (f : Ticket M → Ticket M) : Roster M :=
  { r with tickets := r.tickets.modify index f }

/-- Offers a delivery to all waiters; the one that takes it stays in the roster. -/
def offer (r : Roster M) (message : Option M) (body : Body) : Roster M × MatchOutcome :=
  let (waiters, outcome) := firstMatch (r.tickets.map (·.waiter)) message body
  ({ r with tickets := r.tickets.zipWith (fun t w => { t with waiter := w }) waiters }, outcome)

/-- Offers a message to one waiter. -/
def offerAt (r : Roster M) (index : Nat) (message : M) (body : Body) : Roster M × Bool :=
  (r.update index fun t => { t with waiter := t.waiter.offer message body },
    (r.tickets[index]?.map fun t => t.waiter.matchesMessage message).getD false)

def offerMalformedAt (r : Roster M) (index : Nat) (body : Body) : Roster M :=
  r.update index fun t => { t with waiter := t.waiter.offerMalformed body }

/-- Completes one waiter, unless it was completed before. -/
def completeAt (r : Roster M) (index : Nat) (outcome : Outcome M) : Roster M :=
  r.update index fun t => { t with outcome := t.outcome.resolve outcome }

/-- Drops one waiter. -/
def removeAt (r : Roster M) (index : Nat) : Roster M :=
  { r with tickets := r.tickets.eraseIdx index }

/-- The callers with that id wait no longer. -/
def forget (r : Roster M) (id : Nat) : Roster M :=
  { r with callers := r.callers.filter (·.id != id) }

/-- What a caller is told now: nothing yet, that its waiter was dropped, or the outcome. -/
def told (r : Roster M) (caller : Caller) : Option (Option (Outcome M)) :=
  match r.tickets.find? (·.serial == caller.serial) with
  | none => some none
  | some t => t.outcome.get?.map some

/-- Lets the callers leave who are told something. -/
def collect (r : Roster M) : Roster M × List (Nat × Option (Outcome M)) :=
  ({ r with callers := r.callers.filter fun c => (r.told c).isNone },
    r.callers.filterMap fun c => (r.told c).map (c.id, ·))

end Roster
end Intercept
