import Intercept.Tag.Set

/-!
Which rejects a teardown issues. A batch reject settles a tag and every lower unsettled tag, so it
may only reach below the oldest tag still being processed; above that tag rejects go out singly.
-/

namespace Intercept

/-- The rejects of one teardown: a batch first, then single tags in ascending order. -/
structure RejectPlan where
  /-- The batch covers this tag and every lower one; zero stands for no batch. -/
  multiple : Nat
  single : List Nat
  deriving DecidableEq, Inhabited, Repr

namespace RejectPlan

/-- The tag of the batch reject, if there is one. -/
def batch (p : RejectPlan) : Option Nat := if 0 < p.multiple then some p.multiple else none

def isEmpty (p : RejectPlan) : Bool := p.multiple == 0 && p.single.isEmpty

/-- The rejects in the order in which they are issued; a batch carries the mark. -/
def rejects (p : RejectPlan) : List (Nat × Bool) :=
  p.batch.toList.map (·, true) ++ p.single.map (·, false)

end RejectPlan

/-- The greatest tag at or below the given one that was not acknowledged; zero if all were. -/
def lastUnacked (acked : TagSet) : Nat → Nat
  | 0 => 0
  | n + 1 => if n + 1 ∈ acked then lastUnacked acked n else n + 1

/-- The single rejects above `oldest`, the oldest tag being processed. Tags at or below `previous`
were covered by an earlier teardown unless their failure came after it; of the later ones every
tag is rejected that is neither acknowledged nor being processed. -/
def singleRejects (last previous oldest : Nat) (processing acked shouldNack : TagSet) : List Nat :=
  let fresh := max oldest previous + 1
  shouldNack.toList.filter (fun t => oldest < t && t ≤ previous) ++
    (List.range' fresh (last + 1 - fresh)).filter (fun t => t ∉ acked && t ∉ processing)

/-- The tag up to which a batch may reach that starts at `limit`: acknowledged tags at its end are
left out, and within the range of earlier teardowns only late failures are worth a batch. -/
def batchReject (limit previous : Nat) (acked shouldNack : TagSet) : Nat :=
  let reach := lastUnacked acked limit
  if 0 < reach && reach ≤ previous then (shouldNack.floor? reach).getD 0 else reach

/-- The rejects that settle every tag up to `last` that is not acknowledged, not being processed
and not settled by an earlier teardown, which reached up to `previous`. -/
def rejectPlan (last previous : Nat) (processing acked shouldNack : TagSet) : RejectPlan :=
  match processing.min? with
  | none => ⟨batchReject last previous acked shouldNack, []⟩
  | some oldest =>
    ⟨batchReject (oldest - 1) previous acked shouldNack,
      singleRejects last previous oldest processing acked shouldNack⟩

end Intercept
