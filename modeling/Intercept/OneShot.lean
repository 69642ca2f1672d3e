/-!
Values that are set at most once.
-/

namespace Intercept

/-- A value that somebody may be waiting for. Once it is resolved it never changes. -/
inductive OneShot (α : Type) where
  | pending
  | resolved (value : α)
  deriving DecidableEq, Inhabited, Repr

namespace OneShot
variable {α : Type}

/-- Resolves a pending value; the first resolution stays. -/
def resolve (s : OneShot α) (value : α) : OneShot α :=
  match s with
  | pending => resolved value
  | resolved first => resolved first

def get? : OneShot α → Option α
  | pending => none
  | resolved value => some value

def isPending : OneShot α → Bool
  | pending => true
  | resolved _ => false

@[simp] theorem resolve_pending (a : α) : (pending : OneShot α).resolve a = resolved a := rfl

@[simp] theorem resolve_resolved (a b : α) : (resolved a).resolve b = resolved a := rfl

@[simp] theorem get?_pending : (pending : OneShot α).get? = none := rfl

@[simp] theorem get?_resolved (a : α) : (resolved a).get? = some a := rfl

theorem get?_eq_none_iff {s : OneShot α} : s.get? = none ↔ s = pending := by
  cases s <;> simp

/-- A later resolution does not change what was resolved before. -/
theorem get?_resolve_of_some {s : OneShot α} {a b : α} (h : s.get? = some a) :
    (s.resolve b).get? = some a := by
  cases s <;> simp_all

end OneShot
end Intercept
