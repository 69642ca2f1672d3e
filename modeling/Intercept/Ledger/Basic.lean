import Intercept.Ledger.Plan

/-!
The settlement ledger. It survives the consumers that come and go on one channel: tags keep
ascending, and each teardown asks the ledger which tags still need a reject.
-/

namespace Intercept

/-- How a tag that was being processed was settled. -/
inductive Settlement where
  /-- Acknowledged at the broker. -/
  | acked
  /-- Failed; the next teardown rejects it. -/
  | shouldNack
  /-- Failed and rejected at the broker directly, because no teardown is due. -/
  | alreadyNacked
  deriving DecidableEq, Repr

inductive LedgerError where
  | notProcessing (tag : Nat)
  deriving DecidableEq, Repr

def LedgerError.message : LedgerError → String
  | .notProcessing tag => s!"delivery tag {tag} is not being processed"

/-- Settlement bookkeeping. -/
structure Ledger where
  /-- Claimed tags whose callback has not finished. -/
  processing : TagSet := ∅
  acked : TagSet := ∅
  /-- Tags whose callback failed while a teardown was still due. -/
  shouldNack : TagSet := ∅
  /-- The highest tag delivered. -/
  lastObserved : Nat := 0
  /-- `lastObserved` at the latest teardown. -/
  previouslyNackedThrough : Nat := 0
  deriving Inhabited

namespace Ledger

/-- Records a delivery from the broker. -/
def observe (l : Ledger) (tag : Nat) : Ledger :=
  { l with lastObserved := max l.lastObserved tag }

/-- Records that a waiter claimed a delivery. -/
def startProcessing (l : Ledger) (tag : Nat) : Ledger :=
  { l with processing := l.processing.insert tag }

/-- Records the outcome of a claimed delivery. -/
def endProcessing (l : Ledger) (tag : Nat) (settlement : Settlement) :
    Except LedgerError Ledger :=
  if tag ∈ l.processing then
    let l := { l with processing := l.processing.erase tag }
    .ok <| match settlement with
      | .acked => { l with acked := l.acked.insert tag }
      | .shouldNack => { l with shouldNack := l.shouldNack.insert tag }
      | .alreadyNacked => l
  else .error (.notProcessing tag)

/-- The rejects that are due now. -/
def plan (l : Ledger) : RejectPlan :=
  rejectPlan l.lastObserved l.previouslyNackedThrough l.processing l.acked l.shouldNack

/-- The acknowledged tags that a later plan can still depend on. -/
def retained (l : Ledger) : TagSet :=
  match l.processing.min? with
  | none => ∅
  | some oldest => l.acked.filter (oldest ≤ ·)

/-- Hands out the rejects that are due and forgets what no later plan depends on. -/
def teardown (l : Ledger) : RejectPlan × Ledger :=
  (l.plan,
    { l with
      acked := l.retained
      shouldNack := ∅
      previouslyNackedThrough := l.lastObserved })

end Ledger
end Intercept
