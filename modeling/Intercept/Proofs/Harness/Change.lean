import Intercept.Harness.Act
import Intercept.Proofs.Generation.Lifecycle

/-! What the small changes of a harness leave alone. -/
namespace Intercept

/-- An element of a list of which one was changed. -/
theorem getElem?_modify_some {α : Type} {xs : List α} {f : α → α} {i k : Nat} {y : α}
    (hy : (xs.modify i f)[k]? = some y) :
    i ≠ k ∧ xs[k]? = some y ∨ i = k ∧ ∃ x, xs[k]? = some x ∧ y = f x := by
  rw [List.getElem?_modify] at hy
  by_cases hk : i = k
  · obtain ⟨x, hx, hxy⟩ := Option.map_eq_some_iff.1 hy
    rw [if_pos hk] at hxy
    exact .inr ⟨hk, x, hx, hxy.symm⟩
  · obtain ⟨x, hx, hxy⟩ := Option.map_eq_some_iff.1 hy
    rw [if_neg hk] at hxy
    exact .inl ⟨hk, hxy ▸ hx⟩

namespace Harness
variable {M : Type} {cfg : Setup M} {h : Harness M} {g i : Nat}

/-- The lives of the generations, in their order. -/
def lives (h : Harness M) : List Lifecycle := h.generations.map (·.life)

theorem life_eq : h.life g = h.lives[g]?.getD {} := by
  rw [life, lives, List.getElem?_map]

theorem life_of_some {l : Lifecycle} (hl : h.lives[g]? = some l) : h.life g = l := by
  rw [life_eq, hl]
  rfl

theorem lives_of_some {x : Generation} (hx : h.generations[g]? = some x) :
    h.lives[g]? = some x.life := by
  rw [lives, List.getElem?_map, hx]
  rfl

theorem lives_of_lt (hg : g < h.lives.length) : h.lives[g]? = some (h.life g) := by
  rw [life_eq, List.getElem?_eq_getElem hg]
  rfl

theorem lives_changeGeneration {f : Generation → Generation} (hf : ∀ x, (f x).life = x.life) :
    (h.changeGeneration g f).lives = h.lives := by
  apply List.ext_getElem?
  intro k
  simp only [lives, changeGeneration, List.getElem?_map, List.getElem?_modify]
  cases h.generations[k]? with
  | none => rfl
  | some x =>
    by_cases hk : g = k
    · simp [hk, hf]
    · simp [hk]

theorem lives_enter {stage : Stage} : (h.enter g stage).lives = h.lives :=
  lives_changeGeneration fun _ => rfl

theorem lives_changeLife {f : Lifecycle → Lifecycle} :
    (h.changeLife g f).lives = h.lives.modify g f := by
  apply List.ext_getElem?
  intro k
  simp only [lives, changeLife, changeGeneration, List.getElem?_map, List.getElem?_modify]
  cases h.generations[k]? with
  | none => rfl
  | some x =>
    by_cases hk : g = k
    · simp [hk]
    · simp [hk]

theorem lives_of_changeLife {f : Lifecycle → Lifecycle} {k : Nat} {l : Lifecycle}
    (hl : (h.changeLife g f).lives[k]? = some l) :
    ∃ l₀, h.lives[k]? = some l₀ ∧ (g ≠ k ∧ l = l₀ ∨ g = k ∧ l = f l₀) := by
  rw [lives_changeLife] at hl
  rcases getElem?_modify_some hl with ⟨hk, hl₀⟩ | ⟨hk, l₀, hl₀, heq⟩
  · exact ⟨l, hl₀, .inl ⟨hk, rfl⟩⟩
  · exact ⟨l₀, hl₀, .inr ⟨hk, heq⟩⟩

theorem changeLife_life {f : Lifecycle → Lifecycle} :
    (h.changeLife g fun _ => f (h.life g)) = h.changeLife g f := by
  rw [changeLife, changeLife, changeGeneration, changeGeneration]
  congr 1
  apply List.ext_getElem?
  intro k
  simp only [List.getElem?_modify]
  by_cases hk : g = k
  · subst hk
    cases hx : h.generations[g]? with
    | none => rfl
    | some x => simp [life, hx]
  · simp [hk]

/-- Completing waiters changes nothing but the waits. -/
theorem foldl_complete (h : Harness M) (waiters : List (Waiter M))
    (outcome : Waiter M → Outcome M) :
    ∃ waits, waiters.foldl (fun h w => h.complete w.id (outcome w)) h = { h with waits } := by
  induction waiters generalizing h with
  | nil => exact ⟨h.waits, rfl⟩
  | cons w rest ih =>
    obtain ⟨waits, hwaits⟩ := ih (h.complete w.id (outcome w))
    exact ⟨waits, hwaits⟩

variable (cfg h)

theorem ack_eq (tag : Nat) : ∃ broker, (h.ack cfg tag).1 = { h with broker } := by
  rw [ack]
  split
  · exact ⟨h.broker, rfl⟩
  · exact ⟨_, rfl⟩

theorem nack_eq (tag : Nat) (multiple : Bool) :
    ∃ broker, (h.nack cfg tag multiple).1 = { h with broker } := by
  rw [nack]
  split
  · exact ⟨h.broker, rfl⟩
  · exact ⟨_, rfl⟩

/-- Rejects change nothing but the broker. -/
theorem nackAll_eq (rejects : List (Nat × Bool)) :
    ∃ broker, (h.nackAll cfg rejects).1 = { h with broker } := by
  induction rejects generalizing h with
  | nil => exact ⟨h.broker, rfl⟩
  | cons r rest ih =>
    obtain ⟨broker, hb⟩ := nack_eq cfg h r.1 r.2
    rw [nackAll]
    cases hr : h.nack cfg r.1 r.2 with
    | mk h₁ result =>
      rw [hr] at hb
      obtain rfl : h₁ = { h with broker } := hb
      cases result with
      | ok =>
        obtain ⟨broker', hb'⟩ := ih { h with broker }
        exact ⟨broker', hb'⟩
      | error e => exact ⟨broker, rfl⟩

/-- A shutdown changes nothing but the waits, the waiters and the broker. -/
theorem shutDown_eq (outcome : Outcome M) : ∃ waits,
    h.shutDown outcome = { h with waits, waiters := [], broker := h.broker.dispose } := by
  obtain ⟨waits, hwaits⟩ := foldl_complete h h.waiters fun _ => outcome
  refine ⟨waits, ?_⟩
  rw [shutDown, hwaits]

theorem settle_eq (tag : Nat) (settlement : Settlement) :
    ∃ ledger, h.settle tag settlement = { h with ledger } := by
  rw [settle]
  split
  · exact ⟨_, rfl⟩
  · exact ⟨h.ledger, rfl⟩

end Harness
end Intercept
