/-!
What a run of the program leaves behind.
-/

namespace Intercept.CommandLine

structure Output where
  exitCode : UInt32 := 0
  stdout : String := ""
  stderr : String := ""
  deriving DecidableEq, Repr

/-- Lines of text, each with its line end. -/
def unlines (lines : List String) : String := String.join (lines.map (· ++ "\n"))

/-- The number in front of a cause, right-aligned. -/
def causeNumber (n : Nat) : String :=
  let digits := toString n
  String.ofList (List.replicate (5 - digits.length) ' ') ++ digits ++ ": "

/-- The causes of an error, outermost first; they are numbered if there are several. -/
def causeLines (causes : List String) : List String :=
  match causes with
  | [] => []
  | [cause] => ["", "Caused by:", "    " ++ cause]
  | _ => ["", "Caused by:"] ++ causes.zipIdx.map fun (cause, n) => causeNumber n ++ cause

/-- The output of a run that ends with an error. -/
def Output.failure (stdout message : String) (causes : List String) : Output where
  exitCode := 1
  stdout := stdout
  stderr := unlines (("Error: " ++ message) :: causeLines causes)

end Intercept.CommandLine
