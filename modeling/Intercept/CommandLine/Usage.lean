/-!
How a command is used: its options, its operand and its subcommands, and the help that tells of them.
-/

namespace Intercept.CommandLine

/-- What a value has to be. -/
inductive ValueKind where
  | text
  /-- A path, which is not empty. -/
  | path
  /-- A number of 64 bits. -/
  | number
  deriving DecidableEq, Repr

/-- The number that a text writes; a plus sign may stand in front. -/
def number? (s : String) : Option Nat :=
  let digits := match s.toList with
    | '+' :: ds => ds
    | ds => ds
  if digits.isEmpty || !digits.all (·.isDigit) then none
  else
    let n := digits.foldl (fun n d => n * 10 + (d.toNat - '0'.toNat)) 0
    if n < UInt64.size then some n else none

def ValueKind.accepts : ValueKind → String → Bool
  | text, _ => true
  | path, s => s != ""
  | number, s => (number? s).isSome

/-- A name that stands for a value in a help text, and what the value has to be. -/
structure Placeholder where
  name : String
  kind : ValueKind
  deriving DecidableEq, Repr

/-- What an option does. -/
inductive Effect where
  | value (placeholder : Placeholder)
  | switch
  | showHelp
  | showVersion
  deriving DecidableEq, Repr

structure Opt where
  long : String
  short : Option Char := none
  effect : Effect
  about : String
  required : Bool := false
  deriving DecidableEq, Repr

structure Usage where
  /-- The words that call the command. -/
  name : String
  about : String
  options : List Opt := []
  operand : Option (Placeholder × String) := none
  /-- The subcommands and what they are for. -/
  commands : List (String × String) := []

def helpOpt : Opt := { long := "help", short := some 'h', effect := .showHelp, about := "Print help" }

def versionOpt : Opt :=
  { long := "version", short := some 'V', effect := .showVersion, about := "Print version" }

namespace Opt

def placeholderText (o : Opt) : String :=
  match o.effect with
  | .value p => " <" ++ p.name ++ ">"
  | _ => ""

/-- The option as it stands in a list of options. -/
def label (o : Opt) : String :=
  (match o.short with
    | some c => "-" ++ c.toString ++ ", "
    | none => "    ") ++ "--" ++ o.long ++ o.placeholderText

end Opt

/-- Lines of two columns, of which the second ones begin below each other. -/
def columns (rows : List (String × String)) : List String :=
  let width := (rows.map (·.1.length)).foldl max 0
  rows.map fun (left, right) =>
    "  " ++ left ++ String.ofList (List.replicate (width - left.length + 2) ' ') ++ right

/-- A part of a help text under its title; without lines there is none. -/
def part (title : String) (lines : List String) : List String :=
  if lines.isEmpty then [] else "" :: title :: lines

namespace Usage

/-- The line that shows how to call a command; the options that are required are named. -/
def callLine (u : Usage) : String :=
  let optional := if u.options.any (!·.required) then ["[OPTIONS]"] else []
  let required := (u.options.filter (·.required)).map fun o => "--" ++ o.long ++ o.placeholderText
  let operand := (u.operand.map fun (p, _) => "<" ++ p.name ++ ">").toList
  let command := if u.commands.isEmpty then [] else ["<COMMAND>"]
  "Usage: " ++ " ".intercalate (u.name :: optional ++ required ++ operand ++ command)

def help (u : Usage) : String :=
  let operand := (u.operand.map fun (p, about) => ("<" ++ p.name ++ ">", about)).toList
  String.join <| ([u.about, "", u.callLine] ++
    part "Commands:" (columns u.commands) ++
    part "Arguments:" (columns operand) ++
    part "Options:" (columns (u.options.map fun o => (o.label, o.about)))).map (· ++ "\n")

end Usage
end Intercept.CommandLine
