import Intercept.CommandLine.Command
import Intercept.CommandLine.Output
import Intercept.Harness.Session
import Intercept.Text.Blank

/-!
Replaying messages: a harness waits for one of them while all are published to a broker in memory,
and the output tells how every delivery was settled.
-/

namespace Intercept.CommandLine

/-- The value that a text stands for: the one it writes in JSON, or itself. -/
def expectedValue (text : String) : Json := (Json.ofText? text).getD (.str text)

/-- What is replayed, and what is waited for. -/
structure Replay where
  settings : Settings
  lines : List String
  field : String
  expected : Json
  failProcessing : Bool
  /-- The tag of the consumer. -/
  consumerTag : String

namespace Replay

def description (r : Replay) : String := r.field ++ " == " ++ r.expected.print

/-- The awaited message is an object whose field has the expected value. -/
def predicate (r : Replay) (message : Json) : Verdict :=
  .holds ((message.member? r.field).any (·.same r.expected))

def callback (r : Replay) (message : Json) : List Action :=
  if r.failProcessing then [.fail { outer := "processing rejected " ++ message.print }] else []

def setup (r : Replay) : Setup Json where
  format := .value
  settings := r.settings
  context := "memory://" ++ programName
  callback := fun message => r.callback message
  consumerTag := fun _ => r.consumerTag

/-- The session in which the wait is registered. -/
def registered (r : Replay) : Session Json :=
  ((Session.initial r.setup).perform r.setup (.call r.description r.predicate)).1

/-- The messages are published in a row and the result is awaited, until the deadline if need be. -/
def finished (r : Replay) : Session Json :=
  let s := (r.registered.perform r.setup (.publishAll (r.lines.map Utf8.encode))).1
  let s := (s.perform r.setup (.await 0)).1
  if s.harness.waits.any (·.stage.isAwaiting) then s.advance r.setup r.setup.timeout else s

/-- The result of the wait. -/
def outcome? (h : Harness Json) : Option (Outcome Json) :=
  h.notices.findSome? fun
    | (_, .result outcome) => some outcome
    | _ => none

def header : List String :=
  ["mqtap simulator v" ++ versionNumber, "=====================================", ""]

def outcomeLines (r : Replay) : Outcome Json → List String
  | .ok message => ["Matched `" ++ r.description ++ "`: " ++ message.print]
  | .error e => ["No result for `" ++ r.description ++ "`:", e.message]

/-- How the deliveries were settled. -/
def settlementLine (b : Broker Nat) : String :=
  s!"Acked: {b.acked}  Nacked: {b.nacked}  Unsettled: {b.unsettled.map Prod.fst}  " ++
    s!"Backlog: {b.backlog.length}"

def report (r : Replay) (outcome : Outcome Json) (b : Broker Nat) : List String :=
  let delivered := r.lines.length
  header ++
  [s!"Published {delivered} message(s), {b.lastTag} delivered to the harness", ""] ++
  r.outcomeLines outcome ++
  ["", "--- Broker Operations ---"] ++
  b.operations.map (fun op => "  " ++ op.methodText) ++
  ["", settlementLine b] ++
  b.violations.map (fun v => "  violation: " ++ v.text)

/-- What is printed once the replay has come to an end. It fails if the wait has no result. -/
def printed (r : Replay) (h : Harness Json) : Output :=
  match outcome? h with
  | none => .failure (unlines header) HarnessError.cancelled.message []
  | some outcome =>
    let stdout := unlines (r.report outcome h.broker)
    match outcome with
    | .ok _ => { stdout }
    | .error e => .failure stdout e.message []

/-- Replays the messages. -/
def output (r : Replay) : Output := r.printed r.finished.harness

end Replay
end Intercept.CommandLine
