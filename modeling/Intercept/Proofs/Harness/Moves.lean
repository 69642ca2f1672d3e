import Intercept.Proofs.Harness.Run

/-! Runs: the states that a harness goes through, one after the other. -/
namespace Intercept
variable {M : Type}

/-- What may be asked of a harness. -/
inductive Move (M : Type) where
  | act (a : Act M)
  | step (t : Task)
  | tick

/-- Whether a move is somebody else's at the broker. -/
def Move.isForeign : Move M → Bool
  | act a => a.isForeign
  | _ => false

namespace Harness
variable {cfg : Setup M} {allowed allowed' : Act M → Prop} {h h' : Harness M}
  {s : Nat → Harness M} {n : Nat}

/-- An act that is allowed, a step of a task, or a tick of the clock. -/
inductive Moves (cfg : Setup M) (allowed : Act M → Prop) (h : Harness M) : Harness M → Prop
  | act {h' : Harness M} {reply : BrokerReply} (a : Act M) :
    allowed a → h.act? cfg a = some (h', reply) → Moves cfg allowed h h'
  | step {h' : Harness M} (t : Task) : h.step? cfg t = some h' → Moves cfg allowed h h'
  | tick : Moves cfg allowed h { h with clock := h.clock + 1 }

/-- A run of a harness. It may rest at any time, so that a run may also come to an end. -/
structure Run (cfg : Setup M) (allowed : Act M → Prop) (s : Nat → Harness M) : Prop where
  start : s 0 = initial cfg
  next : ∀ n, s (n + 1) = s n ∨ Moves cfg allowed (s n) (s (n + 1))

theorem Moves.mono (hm : Moves cfg allowed h h') (hsub : ∀ a, allowed a → allowed' a) :
    Moves cfg allowed' h h' := by
  cases hm with
  | act a ha hact => exact .act a (hsub a ha) hact
  | step t hs => exact .step t hs
  | tick => exact .tick

theorem Run.mono (hr : Run cfg allowed s) (hsub : ∀ a, allowed a → allowed' a) :
    Run cfg allowed' s :=
  ⟨hr.start, fun n => (hr.next n).imp_right fun hm => hm.mono hsub⟩

theorem Reaches.moves (hr : Reaches cfg allowed h) (hm : Moves cfg allowed h h') :
    Reaches cfg allowed h' := by
  cases hm with
  | act a ha hact => exact .act a hr ha hact
  | step t hs => exact .step t hr hs
  | tick => exact hr.tick

theorem Run.reaches (hr : Run cfg allowed s) (n : Nat) : Reaches cfg allowed (s n) := by
  induction n with
  | zero =>
    rw [hr.start]
    exact .initial
  | succ n ih =>
    rcases hr.next n with heq | hm
    · rw [heq]
      exact ih
    · exact ih.moves hm

theorem Run.reachable (hr : Run cfg allowed s) (n : Nat) : Reachable cfg (s n) :=
  (hr.mono fun _ _ => trivial).reaches n

theorem Run.alone (hr : Run cfg (fun a => a.isForeign = false) s) (n : Nat) :
    ReachableAlone cfg (s n) :=
  hr.reaches n

/-- The harness after a move. Nothing happens if the move is not possible. -/
def move (cfg : Setup M) (h : Harness M) : Move M → Harness M
  | .act a => ((h.act? cfg a).map (·.1)).getD h
  | .step t => (h.step? cfg t).getD h
  | .tick => { h with clock := h.clock + 1 }

/-- The harness after the first moves of a schedule, at the end of which it rests. -/
def after (cfg : Setup M) : Harness M → List (Move M) → Nat → Harness M
  | h, _, 0 => h
  | h, [], _ => h
  | h, mv :: rest, n + 1 => after cfg (h.move cfg mv) rest n

theorem moves_move {mv : Move M} (hown : mv.isForeign = false) :
    h.move cfg mv = h ∨ Moves cfg (fun a => a.isForeign = false) h (h.move cfg mv) := by
  cases mv with
  | act a =>
    rw [move]
    cases hact : h.act? cfg a with
    | none => exact .inl rfl
    | some r =>
      obtain ⟨h', reply⟩ := r
      exact .inr (.act a hown hact)
  | step t =>
    rw [move]
    cases hs : h.step? cfg t with
    | none => exact .inl rfl
    | some h' => exact .inr (.step t hs)
  | tick => exact .inr .tick

theorem after_next {moves : List (Move M)} (hown : moves.all (!·.isForeign) = true) (n : Nat) :
    after cfg h moves (n + 1) = after cfg h moves n ∨
      Moves cfg (fun a => a.isForeign = false) (after cfg h moves n)
        (after cfg h moves (n + 1)) := by
  induction moves generalizing h n with
  | nil => cases n <;> exact .inl rfl
  | cons mv rest ih =>
    rw [List.all_cons, Bool.and_eq_true] at hown
    cases n with
    | zero =>
      have hone : after cfg h (mv :: rest) 1 = h.move cfg mv := by
        rw [after]
        cases rest <;> rfl
      rw [hone]
      exact moves_move (by simpa using hown.1)
    | succ n => exact ih hown.2 n

/-- The run of a schedule in which nobody else uses the broker. -/
theorem run_after {moves : List (Move M)} (hown : moves.all (!·.isForeign) = true) :
    Run cfg (fun a => a.isForeign = false) (after cfg (initial cfg) moves) :=
  ⟨by cases moves <;> rfl, after_next hown⟩

end Harness
end Intercept
