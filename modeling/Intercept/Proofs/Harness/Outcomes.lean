import Intercept.Proofs.Harness.Deliveries
import Intercept.Proofs.Harness.Notices

/-! What callers are told agrees with how the broker settled their deliveries. -/
namespace Intercept
variable {M : Type}

/-- Whether an error tells a caller that its wait took no delivery. -/
def HarnessError.isEmptyHanded : HarnessError → Bool
  | processing .. | transport _ => false
  | _ => true

namespace WaitStage
variable {stage : WaitStage M} {ns : List (Notice M)} {o : Outcome M}

theorem Tells.of_result (ht : stage.Tells ns) (ho : .result o ∈ ns) :
    (∃ e, stage = .refused e ∧ o = .error e) ∨ stage = .ended o := by
  cases stage with
  | dropped => rcases ht with rfl | rfl <;> simp at ho
  | refused e =>
    subst ht
    obtain rfl : o = .error e := by simpa using ho
    exact .inl ⟨e, rfl, rfl⟩
  | ended o' =>
    subst ht
    obtain rfl : o = o' := by simpa using ho
    exact .inr rfl
  | _ => subst ht; simp at ho

end WaitStage

/-- The outcomes of a wait that took a delivery. It is told that it took none only if there was no
callback. -/
theorem Claim.Fits.outcome {acked : List Nat} {calls : List (CallNote M)} {x : Claim M}
    {o : Outcome M} (hx : x.Fits acked calls (.resolved o)) :
    x.stage = .settled ∧ x.callback ≠ none ∧ (∀ e, o = .error e → e.isEmptyHanded = false) ∨
      x.stage = .brokenOff ∧ x.callback = none ∧ o = .error .cancelled := by
  have hsome : ∀ {r : Except Failure Unit}, x.ending = some r → x.callback ≠ none := by
    intro r hr hnone
    rw [ending, hnone] at hr
    cases hr
  cases hx with
  | acked hs hr _ _ _ =>
    refine .inl ⟨hs, hsome hr, fun e he => ?_⟩
    cases he
  | failed failure hs hr _ =>
    refine .inl ⟨hs, hsome hr, fun e he => ?_⟩
    cases he
    rfl
  | lost b hs hr =>
    refine .inl ⟨hs, hsome hr, fun e he => ?_⟩
    cases he
    rfl
  | brokenOff hs hr => exact .inr ⟨hs, Option.map_eq_none_iff.1 hr, rfl⟩

/-- A claim that has no callback is never over. -/
theorem Claim.Fits.isOpen {acked : List Nat} {calls : List (CallNote M)} {x : Claim M}
    {outcome : OneShot (Outcome M)} (hx : x.Fits acked calls outcome) (hnone : x.callback = none) :
    x.stage.isOpen = true := by
  have hending : x.ending = none := by
    rw [ending, hnone]
    rfl
  cases hx with
  | idle hs => rcases hs with hs | hs | hs <;> rw [hs] <;> rfl
  | running _ _ hr _ _ | acked _ hr _ _ _ | failed _ _ hr _ | lost _ _ hr =>
    rw [hending] at hr
    cases hr
  | brokenOff hs _ =>
    rw [hs]
    rfl

namespace Harness
variable {cfg : Setup M} {allowed : Act M → Prop} {h : Harness M} {s : Nat → Harness M}
  {c g i k m n t : Nat} {x y : Claim M} {o : Outcome M} {message : M} {failure : Failure}

theorem Attended.claim_unique (ha : h.Attended cfg) (hx : x ∈ h.claims) (hy : y ∈ h.claims)
    (hwait : y.wait = x.wait) : y = x := by
  obtain ⟨_, _, _, hself, _⟩ := ha.wait_of_claim hx
  have hmem : y ∈ h.claimsOf x.wait := List.mem_filter.2 ⟨hy, beq_iff_eq.2 hwait⟩
  rw [hself] at hmem
  exact List.mem_singleton.1 hmem

/-- The claim that a wait was told of. One of its waiters took the delivery, whose body is the
message, and each claim on the tag has let its callback begin once. -/
structure Behind (cfg : Setup M) (s : Nat → Harness M) (n i : Nat) (x : Claim M) : Prop where
  claimed : x ∈ (s n).claims
  wait : x.wait = i
  wanted : ∃ w, (s n).waits[i]? = some w ∧ (w.predicate x.message).claims = true
  taken : ∃ k < n, ∃ d, (s k).Takes cfg d x
  began : .began x.tag x.message ∈ (s n).calls
  once : (s n).calls.countP (·.begins x.tag) =
    (s n).claims.countP fun y => y.tag == x.tag && y.stage.hasBegun

theorem Run.behind (hr : Run cfg allowed s) (hx : x ∈ (s n).claims)
    (hb : .began x.tag x.message ∈ (s n).calls) : Behind cfg s n x.wait x := by
  obtain ⟨w, hw, _, _, hbinds⟩ := (hr.attended n).wait_of_claim hx
  obtain ⟨c, hc⟩ := List.getElem?_of_mem hx
  obtain ⟨k, hk, htakes, _⟩ := hr.taken hc
  exact ⟨hx, rfl, ⟨w, hw, hbinds.predicate⟩, ⟨k, hk, htakes⟩, hb, (hr.attended n).begun x.tag⟩

theorem Run.claim_of_le (hr : Run cfg allowed s) (hle : m ≤ n) (hx : x ∈ (s m).claims) :
    ∃ y ∈ (s n).claims, y.deal = x.deal := by
  obtain ⟨c, hc⟩ := List.getElem?_of_mem hx
  obtain ⟨y, hy, heq⟩ := claim_of_deal (hr.deal_of_le hle (deals_of_some hc))
  exact ⟨y, List.mem_of_getElem? hy, heq⟩

section
variable (hr : Run cfg (fun a => a.isForeign = false) s)
include hr

end

end Harness
end Intercept
