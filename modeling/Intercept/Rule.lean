import Intercept.Error
import Intercept.Message

/-!
Rules over messages: a list of conditions, of which the first that holds decides.
-/

namespace Intercept

/-- What a predicate says about a message. -/
inductive Verdict where
  | holds (answer : Bool)
  /-- The predicate returned an error. -/
  | raised (failure : Failure)
  /-- The predicate panicked; a panic may come without a text. -/
  | panicked (reason : Option String)
  deriving DecidableEq, Repr

namespace Verdict

/-- Whether the predicate claims the message; an error or a panic never does. -/
def claims : Verdict → Bool
  | holds answer => answer
  | _ => false

/-- What is noted about a predicate that failed. -/
def failureText? : Verdict → Option String
  | holds _ => none
  | raised failure => some failure.chain
  | panicked reason => some ("predicate panicked: " ++ reason.getD "unknown panic")

end Verdict

/-- A condition on a message, seen as a JSON value. -/
inductive Condition where
  | always
  | has (field : String)
  | equals (field : String) (value : Json)

def Condition.holds (j : Json) : Condition → Bool
  | always => true
  | has field => (j.member? field).isSome
  | equals field value => (j.member? field).any value.same

/-- The outcome of the first rule that applies. -/
def decide? (rules : List (Condition × α)) (j : Json) : Option α :=
  (rules.find? fun r => r.1.holds j).map (·.2)

end Intercept
