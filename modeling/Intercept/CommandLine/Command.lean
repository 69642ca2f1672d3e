import Intercept.CommandLine.Scan

/-!
The commands of the simulator and how they are called.
-/

namespace Intercept.CommandLine

/-- What to wait for while a file of messages is replayed. -/
structure ReplayRequest where
  /-- The path of the settings, if they are not the default ones. -/
  config : Option String
  /-- The path of the messages, one a line. -/
  messages : String
  field : String
  equals : String
  /-- A timeout in milliseconds that takes precedence over the settings. -/
  timeoutMs : Option Nat
  failProcessing : Bool
  deriving DecidableEq, Repr

inductive Command where
  | run (request : ReplayRequest)
  | genConfig
  | validate (config : String)
  deriving DecidableEq, Repr

def programName : String := "mqtap-sim"

def versionNumber : String := "0.3.2"

def logLevelOpt : Opt where
  long := "log-level"
  effect := .value ⟨"LOG_LEVEL", .text⟩
  about := "Log level (trace, debug, info, warn, error) [default: info]"

def runAbout : String := "Wait for a message while replaying a JSON-lines file"

def genConfigAbout : String := "Print the default configuration"

def validateAbout : String := "Validate a configuration file"

def helpAbout : String := "Print this message or the help of the given subcommand(s)"

def mainUsage : Usage where
  name := programName
  about := "Replay messages through the mqtap harness against an in-memory broker"
  options := [logLevelOpt, helpOpt, versionOpt]
  commands := [("run", runAbout), ("gen-config", genConfigAbout), ("validate", validateAbout),
    ("help", helpAbout)]

def runUsage : Usage where
  name := programName ++ " run"
  about := runAbout
  options := [
    { long := "config", short := some 'c', effect := .value ⟨"CONFIG", .path⟩
      about := "Configuration file path" },
    logLevelOpt,
    { long := "messages", short := some 'm', effect := .value ⟨"MESSAGES", .path⟩
      about := "JSON-lines file, one message per line", required := true },
    { long := "field", short := some 'f', effect := .value ⟨"FIELD", .text⟩
      about := "Top-level field to match", required := true },
    { long := "equals", short := some 'e', effect := .value ⟨"EQUALS", .text⟩
      about := "Expected value (JSON, or a plain string)", required := true },
    { long := "timeout-ms", effect := .value ⟨"TIMEOUT_MS", .number⟩
      about := "Override the configured timeout (milliseconds)" },
    { long := "fail-processing", effect := .switch
      about := "Make the processing callback fail" },
    helpOpt]

def genConfigUsage : Usage where
  name := programName ++ " gen-config"
  about := genConfigAbout
  options := [logLevelOpt, helpOpt]

def validateUsage : Usage where
  name := programName ++ " validate"
  about := validateAbout
  options := [logLevelOpt, helpOpt]
  operand := some (⟨"CONFIG", .path⟩, "Configuration file path")

/-- The help text of the command that prints help texts. -/
def helpOfHelp : String :=
  helpAbout ++ "\n\nUsage: " ++ programName ++ " help [COMMAND]...\n\n" ++
    "Arguments:\n  [COMMAND]...  Print help for the subcommand(s)\n"

/-- What the arguments ask for. -/
inductive Request where
  | perform (command : Command)
  /-- A text is to be printed, and nothing else. -/
  | print (text : String)
  | misuse
  deriving DecidableEq, Repr

/-- The request of a scan that ended early. -/
def Request.ofStop (u : Usage) : Stop → Request
  | .help => print u.help
  | .version => print (programName ++ " " ++ versionNumber ++ "\n")
  | .misuse => misuse

/-- Reads the arguments of a subcommand. -/
def subcommand (u : Usage) (command? : Scan → Option Command) (args : List String) : Request :=
  match scan u none {} args >>= fun (s, _) => s.resolve with
  | .error stop => .ofStop u stop
  | .ok s => ((command? s).map .perform).getD .misuse

def runCommand? (s : Scan) : Option Command := do
  let messages ← s.value? "messages"
  let field ← s.value? "field"
  let equals ← s.value? "equals"
  some <| .run {
    config := s.value? "config"
    messages, field, equals
    timeoutMs := s.value? "timeout-ms" >>= number?
    failProcessing := s.has "fail-processing" }

/-- The help text for a path of subcommands. -/
def helpRequest : List String → Request
  | [] => .print mainUsage.help
  | ["run"] => .print runUsage.help
  | ["gen-config"] => .print genConfigUsage.help
  | ["validate"] => .print validateUsage.help
  | ["help"] => .print helpOfHelp
  | _ => .misuse

/-- Reads the arguments of the program. A mistake in the options before a subcommand shows only
after the arguments of the subcommand were read. -/
def Request.ofArgs (args : List String) : Request :=
  match scan mainUsage none {} args with
  | .error stop => .ofStop mainUsage stop
  | .ok (_, none) => .misuse
  | .ok (s, some (name, rest)) =>
    let request :=
      if name = "run" then subcommand runUsage runCommand? rest
      else if name = "gen-config" then subcommand genConfigUsage (fun _ => some .genConfig) rest
      else if name = "validate" then
        subcommand validateUsage (fun s => s.operand.map .validate) rest
      else helpRequest rest
    match request, s.resolve with
    | .perform _, .error _ => .misuse
    | request, _ => request

end Intercept.CommandLine
