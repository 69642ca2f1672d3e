import Intercept.Harness.Registration

/-!
The consumer of a generation: it subscribes once the generation before it has handed its messages
back, offers each delivery to the waiters, and cancels its subscription when it is stopped.
-/

namespace Intercept.Harness
variable {M : Type} (cfg : Setup M) (h : Harness M)

/-- A consumer could not start. -/
def startFailed (g : Nat) (e : HarnessError) : Harness M :=
  (h.enter g .ended).failGeneration g e

/-- The broker attaches a consumer. -/
def attach (g : Nat) : Harness M :=
  let consumer := (h.generations[g]?.map (·.consumer)).getD ""
  match h.broker.start consumer cfg.settings.priority.toInt g with
  | (broker, .ok ()) => ({ h with broker }.enter g (.routing none)).changeLife g (·.setStarted)
  | (broker, .error e) => { h with broker }.startFailed g (.transport e)

/-- Asks for a subscription. A generation that was stopped before does not subscribe, but still
issues the rejects that are due. -/
def subscribe (g : Nat) : Harness M :=
  if (h.life g).stopRequested then (h.enter g .ended).teardown cfg g
  else
    let n := h.subscriptions.length
    let h := { h with subscriptions := h.subscriptions ++ [g] }.changeGeneration g fun x =>
      { x with consumer := cfg.consumerTag n }
    match cfg.connection.start n with
    | .prompt => h.attach cfg g
    | .refused e => h.startFailed g (.transport e)
    | .delayed ms e => h.enter g (.subscribing (h.clock + ms) (h.clock + cfg.timeout) e)

/-- Cancels the subscription. A cancel that is not held back is confirmed at once. -/
def leave (g : Nat) : Harness M :=
  let consumer := (h.generations[g]?.map (·.consumer)).getD ""
  let n := h.cancelCalls
  let h := { h.enter g .ended with cancelCalls := n + 1 }
  match cfg.connection.cancel n with
  | some e => h.fail (.transport e)
  | none =>
    match h.broker.cancel consumer with
    | (broker, .error e) => { h with broker }.fail (.transport e)
    | (broker, .ok none) => { h with broker }
    | (broker, .ok (some c)) => { h with broker }.confirm cfg c

/-- An unmatched delivery was not settled in time: every waiter fails, and the consumer stops. -/
def expireAll (g : Nat) : Harness M :=
  let h' := h.waiters.foldl (fun h w =>
    h.complete w.id
      (.error (w.timeoutError (w.report .unackedMessage cfg.settings.timeout cfg.context)))) h
  { h' with waiters := [] }.changeLife g (·.stop)

/-- Offers a delivery to the waiters. The one that takes it leaves with a claim, and a consumer
without waiters stops. -/
def dispatch (g : Nat) (unmatchedDeadline : Option Nat) (d : Delivery) : Harness M :=
  let message := cfg.format.decode? d.body
  let (waiters, outcome) := firstMatch h.waiters message d.body
  let unclaimed := { h with waiters }.enter g
    (.routing (unmatchedDeadline <|> some (h.clock + cfg.timeout)))
  let h := match outcome, message with
    | .matched i, some m =>
      match waiters[i]? with
      | some w =>
        let claim : Claim M := {
          tag := d.tag
          wait := w.id
          generation := g
          message := m
          callback := cfg.callback m h.claims.length }
        let h := { h with
          waiters := waiters.eraseIdx i
          ledger := h.ledger.startProcessing d.tag
          claims := h.claims ++ [claim] }
        h.enter g (.routing none)
      | none => unclaimed
    | _, _ => unclaimed
  if h.waiters.isEmpty then h.changeLife g (·.stop) else h

/-- The next step of a routing consumer: a stop comes first, then the deadline of an unmatched
delivery, then the next delivery. It also leaves when no delivery can come any more. -/
def route? (g : Nat) (unmatchedDeadline : Option Nat) : Option (Harness M) := do
  let x ← h.generations[g]?
  if x.life.stopRequested then some (h.leave cfg g)
  else if unmatchedDeadline.any (· ≤ h.clock) then some ((h.expireAll cfg g).leave cfg g)
  else
    match x.inbound with
    | d :: rest =>
      some ((h.changeGeneration g fun x => { x with inbound := rest }).dispatch cfg g unmatchedDeadline d)
    | [] => if h.handles cfg g then none else some (h.leave cfg g)

/-- The next step of a generation, unless it has to wait. What it waits for counts even if it comes
at the deadline. -/
def stepGeneration? (g : Nat) : Option (Harness M) := do
  let x ← h.generations[g]?
  match x.stage with
  | .created none => some (h.subscribe cfg g)
  | .created (some previous) => some (h.enter g (.waiting previous (h.clock + cfg.timeout)))
  | .waiting previous deadline =>
    match (h.life previous).fullyStopped.get? with
    | some (.ok ()) => some (h.subscribe cfg g)
    | some (.error e) => some (h.startFailed g e)
    | none =>
      if deadline ≤ h.clock then
        some (h.startFailed g (.generation
          ("timeout waiting for previous consumer to complete after " ++ cfg.timeoutText)))
      else none
  | .subscribing answerAt deadline error =>
    if answerAt ≤ h.clock then
      match error with
      | none => some (h.attach cfg g)
      | some e => some (h.startFailed g (.transport e))
    else if deadline ≤ h.clock then
      some (h.startFailed g (.generation
        ("timeout waiting for consumer to start after " ++ cfg.timeoutText)))
    else none
  | .routing unmatchedDeadline => h.route? cfg g unmatchedDeadline
  | .ended => none

end Intercept.Harness
