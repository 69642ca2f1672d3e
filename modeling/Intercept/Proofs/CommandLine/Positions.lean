import Intercept.Proofs.CommandLine.Scenes

/-! Where a replay stands: how far its caller, its consumer and its callback have got, each in its own
time, and who of them can go on. -/
namespace Intercept.CommandLine

namespace Replay
variable (r : Replay)

/-- The first of the lines that is matched, and its message. -/
structure Finds (before : List String) (line : String) (behind : List String) (m : Json) : Prop where
  lines : r.lines = before ++ line :: behind
  before : ∀ x ∈ before, r.matched? x = none
  line : r.matched? line = some m

/-- The result of the wait, if this tag was claimed. -/
def verdict (tag : Nat) (message : Json) : Outcome Json :=
  match r.result message with
  | .ok () => .ok message
  | .error failure => .error (.processing tag failure)

/-- The tags that are acknowledged once the callback for this one has ended. -/
def acks (tag : Nat) : List Nat := if r.failProcessing then [] else [tag]

/-- The consumer is attached, and its cancel was not asked for. -/
structure Attached (b : Broker Nat) : Prop where
  consumers : b.consumers = [r.subscriber]
  held : b.held = []
  confirmed : b.confirmed = 0
  operations : b.operations.filter (!·.isSettlement) =
    [.start r.consumerTag r.settings.priority.toInt]

/-- The cancel of the consumer was asked for, and is not confirmed yet. -/
structure Asked (b : Broker Nat) : Prop where
  consumers : b.consumers = []
  held : b.held = [r.subscriber]
  confirmed : b.confirmed = 0
  operations : b.operations.filter (!·.isSettlement) =
    [.start r.consumerTag r.settings.priority.toInt, .cancel r.consumerTag]

/-- The cancel of the consumer is confirmed. -/
structure Detached (b : Broker Nat) : Prop where
  consumers : b.consumers = []
  held : b.held = []
  confirmed : b.confirmed = 1
  operations : b.operations.filter (!·.isSettlement) =
    [.start r.consumerTag r.settings.priority.toInt, .cancel r.consumerTag,
      .cancelConfirmed r.consumerTag]

variable {r}

theorem acks_of_ok {tag : Nat} {message : Json} (hr : r.result message = .ok ()) :
    r.acks tag = [tag] := by
  rw [result] at hr
  split at hr
  · cases hr
  · next hf => exact if_neg hf

theorem acks_of_error {tag : Nat} {message : Json} {failure : Failure}
    (hr : r.result message = .error failure) : r.acks tag = [] := by
  rw [result] at hr
  split at hr
  · next hf => exact if_pos hf
  · cases hr

end Replay

/-- What is delivered for these lines, if that many were delivered before. -/
def deliveries (count : Nat) (lines : List String) : List Delivery :=
  (lines.zipIdx (count + 1)).map fun (x, tag) => ⟨tag, Utf8.encode x⟩

theorem deliveries_cons {count : Nat} {x : String} {lines : List String} :
    deliveries count (x :: lines) = ⟨count + 1, Utf8.encode x⟩ :: deliveries (count + 1) lines := rfl

theorem deliveries_concat {count : Nat} {x : String} {lines : List String} :
    deliveries count (lines ++ [x]) =
      deliveries count lines ++ [⟨count + lines.length + 1, Utf8.encode x⟩] := by
  rw [deliveries, deliveries, List.zipIdx_append, List.map_append]
  simp [Nat.add_right_comm]

namespace Listening

/-- The lines that were handed out were not matched, and the others are queued or still to come. -/
structure Holds (r : Replay) (rest : List String) (l : Listening) (handed queue : List String) :
    Prop where
  lines : r.lines = handed ++ (queue ++ rest)
  unmatched : ∀ x ∈ handed, r.matched? x = none
  inbound : l.inbound = deliveries handed.length queue
  count : l.broker.lastTag = handed.length + queue.length

/-- How far the caller has got. It awaits its outcome once all lines are published. -/
inductive Caller (rest : List String) (l : Listening) : Prop
  | starting : l.stage = .starting 0 → l.inbound = [] → Caller rest l
  | registered : l.stage = .registered → Caller rest l
  | awaited : rest = [] → l.stage = .awaited → Caller rest l
  | awaiting (deadline : Nat) : rest = [] → l.stage = .awaiting deadline → Caller rest l

structure Fits (r : Replay) (rest : List String) (l : Listening) : Prop where
  early : l.Early
  holds : ∃ handed queue, l.Holds r rest handed queue
  caller : l.Caller rest
  waiter : l.waiter.id = 0 ∧ l.waiter.predicate = r.predicate
  attached : r.Attached l.broker
  untouched : l.broker.acked = [] ∧ l.broker.nacked = [] ∧ l.broker.backlog = []

/-- The tasks that can go on. -/
inductive Ready (l : Listening) : Task → Prop
  | starting : l.stage = .starting 0 → Ready l (.wait 0)
  | awaited : l.stage = .awaited → Ready l (.wait 0)
  | serving : l.inbound ≠ [] → Ready l (.generation 0)

end Listening

namespace Matched

/-- How far the claim has got. -/
inductive Progress (r : Replay) (s : Matched) : Prop
  | underway : s.claim = .claimed ∨ s.claim = .running (.spawned (r.callback s.message)) ∨
      s.claim = .running (.returned (r.result s.message)) →
    s.outcome = .pending → s.broker.acked = [] → Progress r s
  | settled : s.claim = .settled → s.outcome = .resolved (r.verdict s.tag s.message) →
    s.broker.acked = r.acks s.tag → Progress r s

/-- Where the consumer is. It leaves once all lines are published. -/
inductive Place (r : Replay) (rest : List String) (s : Matched) : Prop
  | staying (deadline : Option Nat) : s.consumer.stage = .routing deadline →
    s.consumer.life = Replay.begun.stop → s.consumer.consumer = r.consumerTag →
    r.Attached s.broker → Place r rest s
  | leaving : rest = [] → s.consumer.stage = .ended → s.consumer.life = Replay.begun.stop →
    s.consumer.consumer = r.consumerTag → r.Asked s.broker → Place r rest s
  | left : rest = [] → s.consumer.stage = .ended → s.consumer.life.state = .complete →
    r.Detached s.broker → Place r rest s

inductive Caller (r : Replay) (rest : List String) (s : Matched) : Prop
  | registered : s.stage = .registered → Caller r rest s
  | awaited : rest = [] → s.stage = .awaited → Caller r rest s
  | awaiting (deadline : Nat) : rest = [] → s.stage = .awaiting deadline →
    (s.outcome = .pending → s.clock < deadline) → Caller r rest s
  | ended : rest = [] → s.stage = .ended (r.verdict s.tag s.message) → s.claim = .settled →
    Caller r rest s

structure Fits (r : Replay) (k : Nat) (m : Json) (rest : List String) (s : Matched) : Prop where
  tag : s.tag = k
  message : s.message = m
  taken : 0 < s.broker.lastTag
  count : s.broker.lastTag + rest.length = r.lines.length
  backlog : s.broker.backlog.length = s.broker.nacked.length
  progress : s.Progress r
  place : s.Place r rest
  caller : s.Caller r rest

inductive Ready (s : Matched) : Task → Prop
  | awaited : s.stage = .awaited → Ready s (.wait 0)
  | answered (deadline : Nat) (o : Outcome Json) : s.stage = .awaiting deadline →
    s.outcome = .resolved o → Ready s (.wait 0)
  | leaving (deadline : Option Nat) : s.consumer.stage = .routing deadline →
    s.consumer.life.stopRequested = true → Ready s (.generation 0)
  | claimed : s.claim = .claimed → Ready s (.claim 0)
  | returned (result : Except Failure Unit) : s.claim = .running (.returned result) →
    Ready s (.claim 0)
  | spawned (actions : List Action) : s.claim = .running (.spawned actions) → Ready s (.callback 0)

end Matched

/-- Where a replay stands while these lines are still to be published. -/
inductive Replay.Scene (r : Replay) (k : Nat) (m : Json) (rest : List String) : Harness Json → Prop
  | calling (clock : Nat) (holding : Bool) : rest = r.lines →
    Scene r k m rest (r.calling clock holding)
  | opening (clock : Nat) (holding : Bool) : rest = r.lines →
    Scene r k m rest (r.opening clock holding)
  | listening (l : Listening) : l.Fits r rest → Scene r k m rest (l.harness r)
  | matched (s : Matched) : s.Fits r k m rest → Scene r k m rest (s.harness r)

/-! Who can go on. -/

namespace Listening
variable {r : Replay} {rest : List String} {l : Listening} {t : Task}

theorem isReady_of_ready (he : l.Early) (hr : l.Ready t) : (l.harness r).isReady r.setup t = true := by
  cases hr with
  | starting hs => exact congrArg Option.isSome (step?_starting hs)
  | awaited hs => exact congrArg Option.isSome (step?_awaited hs)
  | serving hin =>
    rw [Harness.isReady, step?_routing he]
    cases hl : l.inbound with
    | nil => exact (hin hl).elim
    | cons d queue => rfl

theorem ready_of_isReady (hf : l.Fits r rest) (hr : (l.harness r).isReady r.setup t = true) :
    l.Ready t := by
  by_cases hw : t = .wait 0
  · subst hw
    cases hf.caller with
    | starting hs _ => exact .starting hs
    | awaited _ hs => exact .awaited hs
    | registered hs =>
      rw [Harness.isReady, step?_registered hs] at hr
      cases hr
    | awaiting deadline _ hs =>
      rw [Harness.isReady, step?_awaiting hf.early hs] at hr
      cases hr
  · by_cases hg : t = .generation 0
    · subst hg
      refine .serving fun hnone => ?_
      have hhandles : (l.harness r).handles r.setup 0 = true := by
        have hsink : l.broker.consumers.any (·.sink == 0) = true := by
          rw [hf.attached.consumers]
          rfl
        rw [Harness.handles]
        change (_ || (l.broker.consumers ++ l.broker.held).any (·.sink == 0) || _) = true
        rw [List.any_append, hsink]
        rfl
      rw [Harness.isReady, step?_routing hf.early, hnone] at hr
      simp [hhandles] at hr
    · rw [Harness.isReady, step?_elsewhere hw hg] at hr
      cases hr

end Listening

namespace Matched
variable {r : Replay} {k : Nat} {m : Json} {rest : List String} {s : Matched} {t : Task}

theorem isReady_of_ready (hr : s.Ready t) : (s.harness r).isReady r.setup t = true := by
  obtain ⟨clock, stage, outcome, ⟨life, hstage, consumer, inbound⟩, tag, message, claim,
    cancelCalls, broker, ledger, calls⟩ := s
  cases hr with
  | awaited hs => exact congrArg Option.isSome (step?_awaited hs)
  | answered deadline o hs ho => exact congrArg Option.isSome (step?_answered hs ho)
  | leaving deadline hs hstop =>
    obtain rfl : hstage = .routing deadline := hs
    exact congrArg Option.isSome (if_pos hstop)
  | claimed hs => exact congrArg Option.isSome (step?_claimed hs)
  | returned result hs => exact congrArg Option.isSome (step?_returned hs)
  | spawned actions hs =>
    obtain rfl : claim = .running (.spawned actions) := hs
    rfl

/-- The caller cannot go on before its callback has ended. -/
theorem ready_caller (hf : s.Fits r k m rest) (hr : (s.harness r).isReady r.setup (.wait 0) = true) :
    s.Ready (.wait 0) := by
  cases hf.caller with
  | registered hs =>
    rw [Harness.isReady, step?_registered hs] at hr
    cases hr
  | awaited _ hs => exact .awaited hs
  | awaiting deadline _ hs hearly =>
    cases ho : s.outcome with
    | pending =>
      rw [Harness.isReady, step?_awaiting hs ho (hearly ho)] at hr
      cases hr
    | resolved o => exact .answered deadline o hs ho
  | ended _ hs _ =>
    rw [Harness.isReady, step?_over hs] at hr
    cases hr

theorem ready_consumer (hf : s.Fits r k m rest)
    (hr : (s.harness r).isReady r.setup (.generation 0) = true) : s.Ready (.generation 0) := by
  cases hf.place with
  | staying deadline hs hlife _ _ => exact .leaving deadline hs (hlife ▸ rfl)
  | leaving _ hs _ _ _ | left _ hs _ _ =>
    rw [Harness.isReady, step?_left hs] at hr
    cases hr

theorem ready_of_isReady (hf : s.Fits r k m rest) (hr : (s.harness r).isReady r.setup t = true) :
    s.Ready t := by
  by_cases hw : t = .wait 0
  · subst hw
    exact ready_caller hf hr
  by_cases hg : t = .generation 0
  · subst hg
    exact ready_consumer hf hr
  obtain ⟨clock, stage, outcome, consumer, tag, message, claim, cancelCalls, broker, ledger,
    calls⟩ := s
  by_cases hc : t = .claim 0
  · subst hc
    cases hf.progress with
    | settled hs _ _ =>
      obtain rfl : claim = .settled := hs
      cases hr
    | underway hs _ _ =>
      obtain hs | hs | hs := hs
      · exact .claimed hs
      · obtain rfl : claim = .running (.spawned (r.callback message)) := hs
        cases hr
      · exact .returned _ hs
  by_cases hb : t = .callback 0
  · subst hb
    cases hf.progress with
    | settled hs _ _ =>
      obtain rfl : claim = .settled := hs
      cases hr
    | underway hs _ _ =>
      obtain hs | hs | hs := hs
      · obtain rfl : claim = .claimed := hs
        cases hr
      · exact .spawned _ hs
      · obtain rfl : claim = .running (.returned (r.result message)) := hs
        cases hr
  rw [Harness.isReady, step?_elsewhere hw hg hc hb] at hr
  cases hr

end Matched

end Intercept.CommandLine
