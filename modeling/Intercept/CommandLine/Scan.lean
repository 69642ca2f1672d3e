import Intercept.CommandLine.Usage

/-!
Scanning the arguments of a command from left to right, until one of them asks for a help text, is a
mistake, or names a subcommand.
-/

namespace Intercept.CommandLine

/-- An argument by its form. -/
inductive Argument where
  /-- The mark behind which every argument is an operand. -/
  | endOfOptions
  /-- An option by its long name, maybe with a value attached. -/
  | long (name : List Char) (value : Option (List Char))
  /-- Options by their letters, of which the first one with a value takes the rest. -/
  | letters (cs : List Char)
  | plain

def Argument.of (arg : String) : Argument :=
  match arg.toList with
  | ['-', '-'] => endOfOptions
  | '-' :: '-' :: cs =>
    match cs.dropWhile (· != '=') with
    | _ :: value => long (cs.takeWhile (· != '=')) (some value)
    | [] => long cs none
  | '-' :: c :: cs => letters (c :: cs)
  | _ => plain

/-- Why a scan ends early. -/
inductive Stop where
  | help
  | version
  | misuse
  deriving DecidableEq, Repr

/-- What was scanned so far. -/
structure Scan where
  /-- The options that were accepted, by their long names, with their values. -/
  given : List (String × String) := []
  /-- An option that was read last and is not accepted yet. -/
  pending : Option (Opt × String) := none
  operand : Option String := none

namespace Scan

/-- The value of an option, if it was given. -/
def value? (s : Scan) (name : String) : Option String := s.given.lookup name

/-- Whether an option was given. -/
def has (s : Scan) (name : String) : Bool := (s.value? name).isSome

/-- Accepts an option with its value. No option may be given twice. -/
def accept (s : Scan) (o : Opt) (value : String) : Except Stop Scan := do
  if s.has o.long then throw .misuse
  match o.effect with
  | .value p => if !p.kind.accepts value then throw .misuse
  | _ => pure ()
  return { s with given := s.given ++ [(o.long, value)] }

/-- Accepts the option that is pending. -/
def resolve (s : Scan) : Except Stop Scan :=
  match s.pending with
  | none => .ok s
  | some (o, value) => { s with pending := none }.accept o value

/-- Takes an option that has no value. -/
def switch (s : Scan) (o : Opt) : Except Stop Scan := do
  let s ← s.resolve
  match o.effect with
  | .showHelp => throw .help
  | .showVersion => throw .version
  | _ => s.accept o ""

/-- Takes an option whose value is attached to it. -/
def attached (s : Scan) (o : Opt) (value : List Char) : Except Stop Scan := do
  let s ← s.resolve
  s.accept o (String.ofList value)

/-- Takes an operand, if there is room for one. -/
def takeOperand (u : Usage) (s : Scan) (arg : String) : Except Stop Scan := do
  match u.operand, s.operand with
  | some (p, _), none =>
    let s ← s.resolve
    if !p.kind.accepts arg then throw .misuse
    return { s with operand := some arg }
  | _, _ => throw .misuse

end Scan

/-- Whether an option takes a value. -/
def Opt.takesValue (o : Opt) : Bool :=
  match o.effect with
  | .value _ => true
  | _ => false

/-- Takes options by their letters. If the last one takes a value that is still to come, it is
returned. -/
def scanLetters (u : Usage) (s : Scan) : List Char → Except Stop (Scan × Option Opt)
  | [] => .ok (s, none)
  | c :: cs =>
    match u.options.find? (·.short == some c) with
    | none => .error .misuse
    | some o =>
      if o.takesValue then
        match cs with
        | [] => do return (← s.resolve, some o)
        | '=' :: value => do return (← s.attached o value, none)
        | value => do return (← s.attached o value, none)
      else do scanLetters u (← s.switch o) cs

/-- Takes an option by its long name. If it takes a value that is still to come, it is returned. -/
def scanLong (u : Usage) (s : Scan) (name : List Char) (value : Option (List Char)) :
    Except Stop (Scan × Option Opt) :=
  match u.options.find? (·.long == String.ofList name), value with
  | none, _ => .error .misuse
  | some o, some value =>
    if o.takesValue then do return (← s.attached o value, none) else .error .misuse
  | some o, none =>
    if o.takesValue then do return (← s.resolve, some o) else do return (← s.switch o, none)

/-- What a scan ends with: what was scanned, and a subcommand with the arguments behind it. -/
abbrev Scanned := Scan × Option (String × List String)

/-- Scans arguments; `awaiting` is an option whose value is the next one. -/
def scan (u : Usage) (awaiting : Option Opt) (s : Scan) : List String → Except Stop Scanned
  | [] => if awaiting.isSome then .error .misuse else .ok (s, none)
  | arg :: rest =>
    match awaiting, Argument.of arg with
    | some o, .plain => scan u none { s with pending := some (o, arg) } rest
    | some _, _ => .error .misuse
    | none, .endOfOptions => do return (← rest.foldlM (·.takeOperand u ·) s, none)
    | none, .long name value => do
      let (s, awaiting) ← scanLong u s name value
      scan u awaiting s rest
    | none, .letters cs => do
      let (s, awaiting) ← scanLetters u s cs
      scan u awaiting s rest
    | none, .plain =>
      if u.commands.any (·.1 == arg) then .ok (s, some (arg, rest))
      else do scan u none (← s.takeOperand u arg) rest

end Intercept.CommandLine
