import Intercept.CommandLine.Replay
import Intercept.Settings.Document

/-!
Carrying out what the arguments ask for.
-/

namespace Intercept.CommandLine

/-- What a command finds around it. -/
structure Surroundings where
  /-- What reading the file at a path gives. -/
  file : String → Except FileError Body
  /-- The tag for a consumer. -/
  consumerTag : String

/-- An error that was met while doing something, with what caused it. -/
structure Trouble where
  message : String
  causes : List String

def loadSettings (w : Surroundings) : Option String → Except Trouble Settings
  | none => .ok {}
  | some path =>
    (Settings.ofFile (w.file path)).mapError fun e => ⟨"loading " ++ path, e.message :: e.causes⟩

/-- The messages in a file: its lines, without the blanks around them and without blank ones. -/
def readMessages (w : Surroundings) (path : String) : Except Trouble (List String) :=
  let text : Except FileError String := do
    match Utf8.strict? (← w.file path) with
    | some text => return text
    | none => throw .notText
  match text with
  | .ok text => .ok (Text.lines text)
  | .error e => .error ⟨"reading " ++ path, [e.message]⟩

def prepare (w : Surroundings) (q : ReplayRequest) : Except Trouble Replay := do
  let settings ← loadSettings w q.config
  let lines ← readMessages w q.messages
  return {
    settings := match q.timeoutMs with
      | some ms => settings.withTimeout (.ofMillis ms)
      | none => settings
    lines
    field := q.field
    expected := expectedValue q.equals
    failProcessing := q.failProcessing
    consumerTag := w.consumerTag }

def defaultDocument : Output :=
  match Settings.toToml {} with
  | .ok document =>
    { stdout := unlines ["# mqtap harness configuration",
        "# Generated by " ++ programName ++ " gen-config", ""] ++ document }
  | .error e => .failure "" e.message e.causes

def validation (file : Except FileError Body) : Output :=
  match Settings.ofFile file with
  | .ok s =>
    { stdout := unlines ["Configuration valid!", "", s!"Timeout:        {s.timeoutMs} ms",
        s!"Priority:       {s.priority.toInt}", s!"Prefetch count: {s.prefetchCount}"] }
  | .error e =>
    { exitCode := 1, stderr := unlines ["Configuration invalid: " ++ e.message] }

def Command.execute (w : Surroundings) : Command → Output
  | .run q =>
    match prepare w q with
    | .ok replay => replay.output
    | .error e => .failure "" e.message e.causes
  | .genConfig => defaultDocument
  | .validate path => validation (w.file path)

/-- The files that a command reads. -/
def Command.paths : Command → List String
  | .run q => q.config.toList ++ [q.messages]
  | .genConfig => []
  | .validate path => [path]

def Request.execute (w : Surroundings) : Request → Output
  | .perform command => command.execute w
  | .print text => { stdout := text }
  | .misuse =>
    { exitCode := 2
      stderr := unlines ["error: invalid arguments", "", mainUsage.callLine, "",
        "For more information, try '--help'."] }

end Intercept.CommandLine
