import Intercept.Waiter.Basic

/-! What an offered delivery does to the waiters: it reaches them in turn, up to the first that
matches. -/
namespace Intercept
variable {M : Type} {waiters waiters' : List (Waiter M)} {message : Option M} {m : M} {body : Body}
  {index : Nat} {outcome : MatchOutcome}

namespace Waiter
variable {w : Waiter M}

/-- The waiter after it was offered a delivery, decoded or not. -/
def see (w : Waiter M) (message : Option M) (body : Body) : Waiter M :=
  match message with
  | none => w.offerMalformed body
  | some m => w.offer m body

@[simp] theorem see_id : (w.see message body).id = w.id := by
  cases message <;> rfl

@[simp] theorem see_predicate : (w.see message body).predicate = w.predicate := by
  cases message <;> rfl

@[simp] theorem see_messageCount :
    (w.see message body).messageCount = w.messageCount + 1 := by
  cases message <;> rfl

end Waiter

theorem offerMessage_of_none (h : offerMessage waiters m body = (waiters', none)) :
    waiters' = waiters.map (·.see (some m) body) ∧ ∀ w ∈ waiters, w.matchesMessage m = false := by
  induction waiters generalizing waiters' with
  | nil =>
    cases h
    exact ⟨rfl, nofun⟩
  | cons w rest ih =>
    rw [offerMessage] at h
    split at h
    · cases h
    · next hw =>
      cases hrest : offerMessage rest m body with
      | mk rest' index =>
        rw [hrest] at h
        cases index with
        | some index => cases h
        | none =>
          cases h
          obtain ⟨hseen, hnone⟩ := ih hrest
          rw [hseen]
          exact ⟨rfl, List.forall_mem_cons.2 ⟨Bool.eq_false_iff.2 hw, hnone⟩⟩

theorem offerMessage_of_some (h : offerMessage waiters m body = (waiters', some index)) :
    ∃ before w behind, waiters = before ++ w :: behind ∧ before.length = index ∧
      w.matchesMessage m = true ∧ (∀ u ∈ before, u.matchesMessage m = false) ∧
      waiters' = before.map (·.see (some m) body) ++ w.see (some m) body :: behind := by
  induction waiters generalizing waiters' index with
  | nil => cases h
  | cons w rest ih =>
    rw [offerMessage] at h
    split at h
    · next hw =>
      cases h
      exact ⟨[], w, rest, rfl, rfl, hw, by simp, rfl⟩
    · next hw =>
      cases hrest : offerMessage rest m body with
      | mk rest' index' =>
        rw [hrest] at h
        cases index' with
        | none => cases h
        | some index' =>
          cases h
          obtain ⟨before, v, behind, hsplit, hlen, hv, hbefore, hseen⟩ := ih hrest
          refine ⟨w :: before, v, behind, ?_, ?_, hv,
            List.forall_mem_cons.2 ⟨Bool.eq_false_iff.2 hw, hbefore⟩, ?_⟩
          · rw [hsplit]
            rfl
          · rw [List.length_cons, hlen]
          · rw [hseen]
            rfl

/-- Either no waiter matches, and every one sees the delivery and keeps waiting, or the first that
matches takes it, and those behind that one never see it. -/
theorem firstMatch_cases (h : firstMatch waiters message body = (waiters', outcome)) :
    (waiters' = waiters.map (·.see message body) ∧ (∀ index, outcome ≠ .matched index) ∧
      ∀ m, message = some m → ∀ w ∈ waiters, w.matchesMessage m = false) ∨
    ∃ m before w behind, message = some m ∧ waiters = before ++ w :: behind ∧
      w.matchesMessage m = true ∧ (∀ u ∈ before, u.matchesMessage m = false) ∧
      outcome = .matched before.length ∧
      waiters'[before.length]? = some (w.see message body) ∧
      waiters'.eraseIdx before.length = before.map (·.see message body) ++ behind := by
  cases message with
  | none =>
    cases h
    exact .inl ⟨rfl, by simp, by simp⟩
  | some m =>
    rw [firstMatch] at h
    cases hoffer : offerMessage waiters m body with
    | mk seen index =>
      rw [hoffer] at h
      cases index with
      | none =>
        cases h
        obtain ⟨hseen, hnone⟩ := offerMessage_of_none hoffer
        refine .inl ⟨hseen, by simp, fun m' hm' => ?_⟩
        cases hm'
        exact hnone
      | some index =>
        cases h
        obtain ⟨before, w, behind, hsplit, rfl, hw, hbefore, hseen⟩ := offerMessage_of_some hoffer
        have hlen : (before.map (·.see (some m) body)).length = before.length :=
          List.length_map _
        refine .inr ⟨m, before, w, behind, rfl, hsplit, hw, hbefore, rfl, ?_, ?_⟩
        · rw [hseen, List.getElem?_append_right (Nat.le_of_eq hlen), hlen, Nat.sub_self]
          rfl
        · rw [hseen, List.eraseIdx_append_of_length_le (Nat.le_of_eq hlen), hlen, Nat.sub_self]
          rfl

end Intercept
