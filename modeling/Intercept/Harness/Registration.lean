import Intercept.Harness.Settlement

/-!
The part of a caller: it registers a waiter, learns that a consumer is observing the queue, and
awaits the outcome until its deadline.
-/

namespace Intercept.Harness
variable {M : Type} (cfg : Setup M) (h : Harness M)

/-- Disposes of a harness that nobody owns any more. -/
def disposeIfUnowned : Harness M :=
  if h.dropped && !h.waits.any (·.stage.isRegistering) then h.dispose else h

/-- A registration ends with an error. -/
def refuse (i : Nat) (e : HarnessError) : Harness M :=
  ((h.enterWait i (.refused e)).tell i (.result (.error e))).disposeIfUnowned

/-- A registration ends with success. -/
def accept (i : Nat) : Harness M :=
  ((h.enterWait i .registered).tell i .registered).disposeIfUnowned

/-- The generation that a new waiter can join: the current one, unless it was stopped. -/
def joinable : Option Nat :=
  h.current.filter fun g => (h.life g).state != .stopped && (h.life g).state != .complete

/-- Registers the waiter of a wait. A new generation is created if there is none to join. -/
def register (i : Nat) (w : Wait M) : Harness M :=
  match h.failure with
  | some e => h.refuse i e
  | none =>
    let waiter : Waiter M := { id := i, description := w.description, predicate := w.predicate }
    let h := { h with waiters := h.waiters ++ [waiter] }
    match h.joinable with
    | some g => h.enterWait i (.starting g)
    | none =>
      let g := h.generations.length
      let fresh : Generation := { stage := .created h.current }
      let h := { h with generations := h.generations ++ [fresh], current := some g }
      h.enterWait i (.starting g)

/-- Removes the waiter of a wait that was given up. -/
def deregister (i : Nat) : Harness M :=
  if h.waiters.any (·.id == i) then
    { h with waiters := h.waiters.eraseP (·.id == i) }.stopIfIdle
  else h

/-- A wait ends with an outcome. -/
def finish (i : Nat) (outcome : Outcome M) : Harness M :=
  (h.enterWait i (.ended outcome)).tell i (.result outcome)

/-- What is said about the prefetch window: the broker stops delivering once it is full. -/
def prefetchNote : Option (Nat × Nat) :=
  let count := cfg.settings.prefetchCount.toNat
  if count ≤ h.ledger.lastObserved then some (count, h.ledger.lastObserved) else none

/-- The error of a waiter whose deadline passed. -/
def expiry (w : Waiter M) : HarnessError :=
  w.timeoutError
    { w.report .afterAwait cfg.settings.timeout cfg.context with prefetch := h.prefetchNote cfg }

/-- The deadline of an awaited wait passes. If its waiter was claimed, the callback decides. -/
def expire (i : Nat) : Harness M :=
  match h.waiters.find? (·.id == i) with
  | none => h.enterWait i .overdue
  | some w =>
    { h with waiters := h.waiters.eraseP (·.id == i) }.stopIfIdle.finish i (.error (h.expiry cfg w))

/-- The next step of a wait, unless it has to wait. -/
def stepWait? (i : Nat) : Option (Harness M) := do
  let w ← h.waits[i]?
  match w.stage with
  | .calling => some (h.register i w)
  | .starting g =>
    match ← (h.life g).started.get? with
    | .ok () => some (h.accept i)
    | .error e => some ((h.deregister i).refuse i e)
  | .awaited => some (h.enterWait i (.awaiting (h.clock + cfg.timeout)))
  | .awaiting deadline =>
    match w.outcome.get? with
    | some outcome => some (h.finish i outcome)
    | none => if deadline ≤ h.clock then some (h.expire cfg i) else none
  | .overdue => (h.finish i ·) <$> w.outcome.get?
  | _ => none

end Intercept.Harness
