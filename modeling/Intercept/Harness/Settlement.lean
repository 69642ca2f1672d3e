import Intercept.Harness.State

/-!
How deliveries are settled and how the harness ends. A failure of the transport, and a cancel nobody
asked for, are terminal: everybody who waits is told, and the broker is released.
-/

namespace Intercept.Harness
variable {M : Type} (cfg : Setup M) (h : Harness M)

/-- Acknowledges a delivery. -/
def ack (tag : Nat) : Harness M × Except BrokerError Unit :=
  match cfg.connection.ack tag with
  | some e => (h, .error e)
  | none =>
    let (broker, r) := h.broker.ack tag
    ({ h with broker }, r)

/-- Rejects a delivery, or every unsettled one up to it. -/
def nack (tag : Nat) (multiple : Bool) : Harness M × Except BrokerError Unit :=
  match cfg.connection.nack tag with
  | some e => (h, .error e)
  | none =>
    let (broker, r) := h.broker.nack tag multiple
    ({ h with broker }, r)

/-- Issues rejects one after the other, up to the first that fails. -/
def nackAll (h : Harness M) : List (Nat × Bool) → Harness M × Except BrokerError Unit
  | [] => (h, .ok ())
  | (tag, multiple) :: rest =>
    match h.nack cfg tag multiple with
    | (h, .ok ()) => h.nackAll rest
    | (h, .error e) => (h, .error e)

/-- Completes every waiter and releases the broker. -/
def shutDown (outcome : Outcome M) : Harness M :=
  let h := h.waiters.foldl (fun h w => h.complete w.id outcome) h
  { h with waiters := [], broker := h.broker.dispose }

/-- The harness fails for good. Only the first failure counts. -/
def fail (e : HarnessError) : Harness M :=
  match h.failure with
  | some _ => h
  | none =>
    let h := match h.current with
      | none => h
      | some g => h.changeLife g (·.setException e)
    { h with failure := some e, current := none }.shutDown (.error e)

/-- Disposes of the harness, also of one that has failed. -/
def dispose : Harness M :=
  if h.failure = some .disposed then h
  else
    let h := match h.current with
      | none => h
      | some g => h.changeLife g (·.stop)
    { h with failure := some .disposed }.shutDown (.error .cancelled)

/-- A generation fails, and the harness with it. -/
def failGeneration (g : Nat) (e : HarnessError) : Harness M :=
  (h.changeLife g (·.setException e)).fail e

/-- The cancel of a generation's consumer was confirmed, or it never subscribed: the rejects that
are due go out, and the next generation may subscribe. -/
def teardown (g : Nat) : Harness M :=
  match (h.life g).setComplete ((h.generations[g]?.map (·.consumer)).getD "") with
  | (life, .error e) => (h.changeLife g fun _ => life).fail e
  | (life, .ok ()) =>
    let (plan, ledger) := h.ledger.teardown
    match { h.changeLife g fun _ => life with ledger }.nackAll cfg plan.rejects with
    | (h, .ok ()) => h.changeLife g (·.signalStopped)
    | (h, .error e) => h.failGeneration g (.transport e)

/-- Tells a consumer that its cancel is confirmed. -/
def confirm (c : Consumer Nat) : Harness M :=
  let h := h.teardown cfg c.sink
  { h with broker := h.broker.confirmCancel c.tag }

/-- Notes in the ledger how a claimed delivery was settled. -/
def settle (tag : Nat) (settlement : Settlement) : Harness M :=
  match h.ledger.endProcessing tag settlement with
  | .ok ledger => { h with ledger }
  | .error _ => h

/-- Sees to the reject of a delivery whose callback failed. The teardown of the current generation
rejects it; if that is over, it is rejected now. -/
def rejectFailed (tag : Nat) : Harness M :=
  if (h.currentState.map (·.isTerminal)).getD true then
    match (h.settle tag .alreadyNacked).nack cfg tag false with
    | (h, .ok ()) => h
    | (h, .error e) => h.fail (.transport e)
  else h.settle tag .shouldNack

/-- Stops the current generation if no waiter is left. -/
def stopIfIdle : Harness M :=
  match h.waiters, h.current with
  | [], some g => h.changeLife g (·.stop)
  | _, _ => h

end Intercept.Harness
