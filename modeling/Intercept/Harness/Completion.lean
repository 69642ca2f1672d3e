import Intercept.Harness.Settlement

/-!
What becomes of a claim: it takes a permit, runs its callback, settles the delivery as the callback
ends, completes the waiter, and gives the permit back. The function that hands over the callback is
the caller's own, and may panic; then there is no callback, and the claim breaks off.
-/

namespace Intercept.Harness
variable {M : Type} (cfg : Setup M) (h : Harness M)

/-- Gives a permit back; the claim that has waited longest gets it. -/
def returnPermit : Harness M :=
  match h.permitQueue with
  | [] => { h with permits := h.permits + 1 }
  | c :: rest => { h with permitQueue := rest }.enterClaim c .granted

/-- A claim has no callback to run. Its delivery is left as it is, the caller finds its waiter gone,
and the permit is given back. -/
def breakOff (c : Nat) (x : Claim M) : Harness M :=
  ((h.complete x.wait (.error .cancelled)).enterClaim c .brokenOff).returnPermit

/-- A claim that has a permit lets its callback run, if there is one. -/
def launch (c : Nat) (x : Claim M) : Harness M :=
  match x.callback with
  | some actions => h.enterClaim c (.running (.spawned actions))
  | none => h.breakOff c x

/-- A claim asks for a permit, which are handed out in the order of asking. -/
def takePermit (c : Nat) (x : Claim M) : Harness M :=
  if 0 < h.permits then { h with permits := h.permits - 1 }.launch c x
  else { h.enterClaim c .queued with permitQueue := h.permitQueue ++ [c] }

/-- Settles a claim whose callback has ended, and completes its waiter. -/
def conclude (c : Nat) (x : Claim M) (result : Except Failure Unit) : Harness M :=
  let h := match result with
    | .ok () =>
      match h.ack cfg x.tag with
      | (h, .ok ()) => (h.settle x.tag .acked).complete x.wait (.ok x.message)
      | (h, .error e) => (h.complete x.wait (.error (.transport e))).fail (.transport e)
    | .error failure =>
      (h.rejectFailed cfg x.tag).complete x.wait (.error (.processing x.tag failure))
  (h.enterClaim c .settled).returnPermit

/-- The next step of a claim, unless it has to wait. -/
def stepClaim? (c : Nat) : Option (Harness M) := do
  let x ← h.claims[c]?
  match x.stage with
  | .claimed => some (h.takePermit c x)
  | .granted => some (h.launch c x)
  | .running (.returned result) => some (h.conclude cfg c x result)
  | _ => none

/-- How far a callback gets now with the actions that are left to it. -/
def perform (clock : Nat) (openGates : List String) : List Action → CallbackStage
  | [] => .returned (.ok ())
  | .sleep ms :: rest =>
    if ms = 0 then perform clock openGates rest else .sleeping (clock + ms) rest
  | .pass gate :: rest =>
    if openGates.contains gate then perform clock openGates rest else .gated gate rest
  | .fail failure :: _ => .returned (.error failure)
  | .panic reason :: _ => .returned (.error (panicFailure reason))

/-- A callback goes on with the actions that are left to it. -/
def act (c : Nat) (x : Claim M) (actions : List Action) : Harness M :=
  let stage := perform h.clock h.openGates actions
  let h := h.enterClaim c (.running stage)
  match stage with
  | .returned (.ok ()) => h.noteCall (.ended x.tag x.message)
  | _ => h

/-- The next step of a callback, unless it has to wait. -/
def stepCallback? (c : Nat) : Option (Harness M) := do
  let x ← h.claims[c]?
  match x.stage with
  | .running (.spawned actions) =>
    some ((h.noteCall (.began x.tag x.message)).act c x actions)
  | .running (.sleeping wakeAt rest) => if wakeAt ≤ h.clock then some (h.act c x rest) else none
  | .running (.gated gate rest) =>
    if h.openGates.contains gate then some (h.act c x rest) else none
  | _ => none

end Intercept.Harness
