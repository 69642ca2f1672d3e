import Intercept.Broker.Basic

/-! The log of a broker is only extended, and once the channel is released nothing but confirmations
of earlier cancels is recorded. -/
namespace Intercept

/-- Whether the channel is released once an operation is recorded. There is no answer if the
operation may not be recorded on a channel that was released before. -/
def Operation.next? (released : Bool) : Operation → Option Bool
  | .cancelConfirmed _ => some released
  | .dispose => if released then none else some true
  | _ => if released then none else some false

/-- Whether an operation tells that a cancel is confirmed. -/
def Operation.isConfirmation : Operation → Bool
  | .cancelConfirmed _ => true
  | _ => false

section
variable {log : List Operation} {released : Bool} {op : Operation}

theorem Operation.next?_released {after : Bool} (h : op.next? true = some after) :
    op.isConfirmation = true ∧ after = true := by
  cases op <;> cases h
  exact ⟨rfl, rfl⟩

/-- On a released channel only confirmations are recorded. -/
theorem confirmations_of_released {after : Bool}
    (h : log.foldlM Operation.next? true = some after) :
    after = true ∧ ∀ op ∈ log, op.isConfirmation = true := by
  induction log with
  | nil =>
    cases h
    exact ⟨rfl, nofun⟩
  | cons op rest ih =>
    rw [List.foldlM_cons, Option.bind_eq_bind, Option.bind_eq_some_iff] at h
    obtain ⟨mid, hop, hrest⟩ := h
    obtain ⟨hconf, rfl⟩ := Operation.next?_released hop
    obtain ⟨hafter, hall⟩ := ih hrest
    refine ⟨hafter, fun op' hop' => ?_⟩
    rcases List.mem_cons.1 hop' with rfl | hop'
    · exact hconf
    · exact hall op' hop'

/-- The release comes last, but for confirmations. -/
theorem confirmations_after_dispose {after : Bool} {early late : List Operation}
    (h : (early ++ .dispose :: late).foldlM Operation.next? released = some after) :
    ∀ op ∈ late, op.isConfirmation = true := by
  rw [List.foldlM_append, Option.bind_eq_bind, Option.bind_eq_some_iff] at h
  obtain ⟨mid, _, h⟩ := h
  rw [List.foldlM_cons, Option.bind_eq_bind, Option.bind_eq_some_iff] at h
  obtain ⟨mid', hdispose, hlate⟩ := h
  have hreleased : mid' = true := by
    cases mid <;> cases hdispose
    rfl
  subst hreleased
  exact (confirmations_of_released hlate).2

/-- The release is recorded once at most. -/
theorem count_dispose_le_one {after : Bool}
    (h : log.foldlM Operation.next? released = some after) : log.count .dispose ≤ 1 := by
  by_cases hmem : .dispose ∈ log
  · obtain ⟨early, late, rfl, hearly⟩ := List.eq_append_cons_of_mem hmem
    have hlate : .dispose ∉ late := fun hd => by
      have hconf := confirmations_after_dispose h _ hd
      cases hconf
    have hone : (early ++ .dispose :: late).count Operation.dispose = 1 := by
      rw [List.count_append, List.count_eq_zero_of_not_mem hearly, List.count_cons_self,
        List.count_eq_zero_of_not_mem hlate]
    exact Nat.le_of_eq hone
  · exact Nat.le_trans (Nat.le_of_eq (List.count_eq_zero_of_not_mem hmem)) (Nat.zero_le 1)

end

namespace Broker
variable {κ : Type} {b b' b'' : Broker κ}

/-- The log is extended by what may be recorded. -/
def Onward (b b' : Broker κ) : Prop :=
  ∃ tail, b'.operations = b.operations ++ tail ∧
    tail.foldlM Operation.next? b.disposed = some b'.disposed

theorem Onward.of_same (hops : b'.operations = b.operations) (hd : b'.disposed = b.disposed) :
    b.Onward b' :=
  ⟨[], by rw [hops, List.append_nil], by rw [hd]; rfl⟩

theorem Onward.refl : b.Onward b := .of_same rfl rfl

theorem Onward.trans (h : b.Onward b') (h' : b'.Onward b'') : b.Onward b'' := by
  obtain ⟨tail, hops, hd⟩ := h
  obtain ⟨tail', hops', hd'⟩ := h'
  refine ⟨tail ++ tail', by rw [hops', hops, List.append_assoc], ?_⟩
  rw [List.foldlM_append, hd]
  exact hd'

theorem Onward.recorded (op : Operation) (hops : b'.operations = b.operations ++ [op])
    (hop : op.next? b.disposed = some b'.disposed) : b.Onward b' := by
  refine ⟨[op], hops, ?_⟩
  rw [List.foldlM_cons, hop]
  rfl

/-- A released channel stays released, and only confirmations are recorded. -/
theorem Onward.released (h : b.Onward b') (hb : b.disposed = true) : b'.disposed = true ∧
    ∃ tail, b'.operations = b.operations ++ tail ∧ ∀ op ∈ tail, op.isConfirmation = true := by
  obtain ⟨tail, hops, hd⟩ := h
  rw [hb] at hd
  obtain ⟨hafter, hall⟩ := confirmations_of_released hd
  exact ⟨hafter, tail, hops, hall⟩

/-! Every operation extends the log. -/

theorem onward_onOpen {α : Type} {op : Operation} {run : Broker κ → Broker κ × Except BrokerError α}
    (hop : op.next? false = some false)
    (hrun : (run (b.record op)).1.operations = b.operations ++ [op] ∧
      (run (b.record op)).1.disposed = b.disposed) : b.Onward (b.onOpen op run).1 := by
  rw [onOpen]
  split
  · exact .refl
  · next hopen =>
    refine .recorded op hrun.1 ?_
    rw [hrun.2, Bool.eq_false_iff.2 hopen]
    exact hop

theorem onward_start {tag : String} {priority : Int} {sink : κ} :
    b.Onward (b.start tag priority sink).1 :=
  onward_onOpen rfl ⟨rfl, rfl⟩

theorem onward_ack {tag : Nat} : b.Onward (b.ack tag).1 := by
  refine onward_onOpen rfl ?_
  split <;> exact ⟨rfl, rfl⟩

theorem onward_nack {tag : Nat} {multiple : Bool} : b.Onward (b.nack tag multiple).1 := by
  refine onward_onOpen rfl ?_
  split <;> exact ⟨rfl, rfl⟩

theorem onward_cancel {tag : String} : b.Onward (b.cancel tag).1 := by
  refine onward_onOpen rfl ?_
  split
  · exact ⟨rfl, rfl⟩
  · simp only
    split <;> exact ⟨rfl, rfl⟩

theorem onward_confirmCancel {tag : String} : b.Onward (b.confirmCancel tag) :=
  .recorded (.cancelConfirmed tag) rfl rfl

theorem disposed_dispose : b.dispose.disposed = true := by
  rw [dispose]
  split
  · next hd => exact hd
  · rfl

theorem onward_dispose : b.Onward b.dispose := by
  rw [dispose]
  split
  · exact .refl
  · next hopen =>
    refine .recorded .dispose rfl ?_
    rw [Bool.eq_false_iff.2 hopen]
    rfl

theorem onward_publish {body : Body} : b.Onward (b.publish body).1 := by
  rw [publish]
  split <;> exact .of_same rfl rfl

end Broker
end Intercept
