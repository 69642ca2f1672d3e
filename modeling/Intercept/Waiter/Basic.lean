import Intercept.Rule

/-!
Waiters: pending predicates and what they have seen so far. A delivery is offered to the waiters in
the order of their registration, and the first one that matches takes it.
-/

namespace Intercept

/-- A pending predicate with its samples of the deliveries that reached it. -/
structure Waiter (M : Type) where
  id : Nat
  description : String
  predicate : M → Verdict
  /-- The number of deliveries that reached the waiter. -/
  messageCount : Nat := 0
  observed : List String := []
  malformed : List String := []
  predicateFailures : List String := []

/-- Adds a sample unless there are enough of them. -/
def addSample (samples : List String) (sample : String) : List String :=
  if samples.length < sampleCap then samples ++ [sample] else samples

/-- Adds a sample if there is one. -/
def addSample? (samples : List String) : Option String → List String
  | none => samples
  | some sample => addSample samples sample

namespace Waiter
variable {M : Type}

/-- The waiter after it was offered a decoded message. -/
def offer (w : Waiter M) (message : M) (body : Body) : Waiter M :=
  { w with
    messageCount := w.messageCount + 1
    observed := addSample w.observed (Utf8.lossy body)
    predicateFailures := addSample? w.predicateFailures (w.predicate message).failureText? }

/-- Whether the waiter takes a message. -/
def matchesMessage (w : Waiter M) (message : M) : Bool := (w.predicate message).claims

/-- The waiter after it was offered a body that could not be decoded. -/
def offerMalformed (w : Waiter M) (body : Body) : Waiter M :=
  { w with
    messageCount := w.messageCount + 1
    malformed := addSample w.malformed (Utf8.lossy body) }

/-- What the waiter has seen. -/
def report (w : Waiter M) (reason : TimeoutReason) (timeout : Duration) (context : String) :
    TimeoutReport where
  description := w.description
  context := context
  reason := reason
  timeout := timeout
  messageCount := w.messageCount
  observed := w.observed
  malformed := w.malformed
  predicateFailures := w.predicateFailures

/-- The error of a waiter that never matched; a predicate that failed takes precedence. -/
def timeoutError (w : Waiter M) (report : TimeoutReport) : HarnessError :=
  if w.predicateFailures.isEmpty then .timeout report else .predicate report

end Waiter

/-- What became of a delivery that was offered. -/
inductive MatchOutcome where
  /-- The waiter at this index took the delivery. -/
  | matched (index : Nat)
  | malformed
  | noMatch
  deriving DecidableEq, Repr

/-- Offers a decoded message to the waiters in turn. The first that matches takes it, and those
behind it never see it. -/
def offerMessage (waiters : List (Waiter M)) (message : M) (body : Body) :
    List (Waiter M) × Option Nat :=
  match waiters with
  | [] => ([], none)
  | w :: rest =>
    let offered := w.offer message body
    if w.matchesMessage message then (offered :: rest, some 0)
    else
      let (rest, index) := offerMessage rest message body
      (offered :: rest, index.map (· + 1))

theorem length_offerMessage {waiters : List (Waiter M)} {message : M} {body : Body} :
    (offerMessage waiters message body).1.length = waiters.length := by
  induction waiters with
  | nil => rfl
  | cons w rest ih =>
    rw [offerMessage]
    split
    · rfl
    · simp [ih]

/-- Offers a delivery to the waiters. A malformed one reaches all of them and is taken by none. -/
def firstMatch (waiters : List (Waiter M)) (message : Option M) (body : Body) :
    List (Waiter M) × MatchOutcome :=
  match message with
  | none => (waiters.map (·.offerMalformed body), .malformed)
  | some message =>
    match offerMessage waiters message body with
    | (waiters, some index) => (waiters, .matched index)
    | (waiters, none) => (waiters, .noMatch)

theorem length_firstMatch {waiters : List (Waiter M)} {message : Option M} {body : Body} :
    (firstMatch waiters message body).1.length = waiters.length := by
  cases message with
  | none => exact List.length_map _
  | some m =>
    rw [← @length_offerMessage M waiters m body, firstMatch]
    split
    · next heq => rw [heq]
    · next heq => rw [heq]

end Intercept
