import Intercept.Broker.Basic

/-! What the operations of a broker do to the account of its tags. -/
namespace Intercept.Broker
variable {κ : Type} {b b' b'' : Broker κ} {t : Nat} {multiple : Bool}

/-- The tags that are not settled. -/
def tags (b : Broker κ) : List Nat := b.unsettled.map (·.1)

theorem isUnsettled_iff : b.isUnsettled t = true ↔ t ∈ b.tags := by
  simp [isUnsettled, tags]

/-- Every delivered tag has one place: it is acknowledged, rejected or not settled. -/
def Balanced (b : Broker κ) : Prop :=
  (b.acked ++ b.nacked ++ b.tags).Perm (List.range' 1 b.lastTag)

theorem balanced_initial : ({} : Broker κ).Balanced := .refl _

/-- Nothing was delivered and nothing settled. -/
structure Still (b b' : Broker κ) : Prop where
  lastTag : b'.lastTag = b.lastTag
  unsettled : b'.unsettled = b.unsettled
  acked : b'.acked = b.acked
  nacked : b'.nacked = b.nacked
  violations : b'.violations = b.violations
  nacks : ∀ t m, Operation.nack t m ∈ b'.operations → Operation.nack t m ∈ b.operations

theorem Still.tags (hs : b.Still b') : b'.tags = b.tags := by
  rw [Broker.tags, hs.unsettled, Broker.tags]

theorem Still.balanced (hs : b.Still b') (hb : b.Balanced) : b'.Balanced := by
  rw [Balanced, hs.acked, hs.nacked, hs.tags, hs.lastTag]
  exact hb

/-- What an operation leaves in place that is neither a delivery nor a settlement, and is recorded
as something else than a reject. -/
theorem still_record (op : Operation) (hop : ∀ t m, op ≠ .nack t m) : b.Still (b.record op) := by
  refine ⟨rfl, rfl, rfl, rfl, rfl, fun t m hmem => ?_⟩
  rcases List.mem_append.1 hmem with hmem | hmem
  · exact hmem
  · exact (hop t m (List.mem_singleton.1 hmem).symm).elim

theorem still_dispose : b.Still b.dispose := by
  rw [dispose]
  split
  · exact ⟨rfl, rfl, rfl, rfl, rfl, fun _ _ h => h⟩
  · have hr : b.Still (b.record .dispose) := still_record .dispose (by simp)
    exact ⟨rfl, rfl, rfl, rfl, rfl, hr.nacks⟩

/-- The channel is released: it takes no calls, and nobody is called back. -/
def Released (b : Broker κ) : Prop := b.disposed = true ∧ b.consumers = [] ∧ b.held = []

theorem released_of_open (hd : b.disposed = false) (hdis : b.disposed = true) : b.Released := by
  rw [hd] at hdis
  cases hdis

theorem released_dispose (hr : b.disposed = true → b.Released) : b.dispose.Released := by
  rw [dispose]
  split
  · next hd => exact hr hd
  · exact ⟨rfl, rfl, rfl⟩

/-! Settlements. -/

/-- The unsettled tags that satisfy `p` were settled, by rejects out of the list or otherwise. -/
structure Settles (rejects : List (Nat × Bool)) (p : Nat → Prop) (b b' : Broker κ) : Prop where
  lastTag : b'.lastTag = b.lastTag
  violations : b'.violations = b.violations
  consumers : b'.consumers = b.consumers
  held : b'.held = b.held
  disposed : b'.disposed = b.disposed
  tags : ∀ u, u ∈ b'.tags ↔ u ∈ b.tags ∧ ¬ p u
  balanced : b.Balanced → b'.Balanced
  nacks : ∀ t m, Operation.nack t m ∈ b'.operations →
    Operation.nack t m ∈ b.operations ∨ (t, m) ∈ rejects

theorem settles_refl {rejects : List (Nat × Bool)} : Settles rejects (fun _ => False) b b :=
  ⟨rfl, rfl, rfl, rfl, rfl, fun u => by simp, id, fun _ _ h => .inl h⟩

theorem Settles.trans {rejects : List (Nat × Bool)} {p q : Nat → Prop}
    (h : Settles rejects p b b') (h' : Settles rejects q b' b'') :
    Settles rejects (fun u => p u ∨ q u) b b'' := by
  refine ⟨h'.lastTag.trans h.lastTag, h'.violations.trans h.violations,
    h'.consumers.trans h.consumers, h'.held.trans h.held, h'.disposed.trans h.disposed, ?_,
    h'.balanced ∘ h.balanced, ?_⟩
  · intro u
    rw [h'.tags, h.tags, not_or, and_assoc]
  · intro t m hmem
    rcases h'.nacks t m hmem with hmem | hmem
    · exact h.nacks t m hmem
    · exact .inr hmem

theorem Settles.subset {rejects rejects' : List (Nat × Bool)} {p : Nat → Prop}
    (h : Settles rejects p b b') (hsub : ∀ r ∈ rejects, r ∈ rejects') :
    Settles rejects' p b b' :=
  { h with nacks := fun t m hmem => (h.nacks t m hmem).imp_right (hsub (t, m)) }

theorem tags_filter (b : Broker κ) (p : Nat → Bool) :
    (b.unsettled.filter fun d => p d.1).map (·.1) = b.tags.filter p := by
  rw [tags, List.filter_map]
  rfl

theorem Balanced.nodup (hb : b.Balanced) : (b.acked ++ b.nacked ++ b.tags).Nodup :=
  hb.nodup_iff.2 List.nodup_range'

/-- An unsettled tag is acknowledged. -/
theorem ack_eq (hd : b.disposed = false) (ht : t ∈ b.tags) :
    b.ack t = ({ b.record (.ack t) with
      unsettled := b.unsettled.filter (·.1 != t), acked := b.acked ++ [t] }, .ok ()) := by
  have hun : (b.record (.ack t)).isUnsettled t = true := isUnsettled_iff.2 ht
  rw [ack, onOpen, hd, if_neg Bool.false_ne_true, if_pos hun]
  rfl

theorem ack_of_unsettled (hd : b.disposed = false) (ht : t ∈ b.tags) :
    ∃ b', b.ack t = (b', .ok ()) ∧ Settles [] (· = t) b b' ∧ b'.acked = b.acked ++ [t] ∧
      b'.nacked = b.nacked ∧ b'.operations = b.operations ++ [.ack t] := by
  refine ⟨_, ack_eq hd ht, ⟨rfl, rfl, rfl, rfl, rfl, ?_, ?_, ?_⟩, rfl, rfl, rfl⟩
  · intro u
    change u ∈ (b.unsettled.filter fun d => d.1 != t).map (·.1) ↔ _
    rw [tags_filter b (· != t), List.mem_filter, bne_iff_ne]
  · intro hb
    have hnodup : b.tags.Nodup := (List.nodup_append.1 hb.nodup).2.1
    change (b.acked ++ [t] ++ b.nacked ++ (b.unsettled.filter fun d => d.1 != t).map (·.1)).Perm _
    rw [tags_filter b (· != t), ← hnodup.erase_eq_filter]
    calc b.acked ++ [t] ++ b.nacked ++ b.tags.erase t
        = b.acked ++ ([t] ++ b.nacked) ++ b.tags.erase t := by rw [List.append_assoc b.acked]
      _ |>.Perm (b.acked ++ (b.nacked ++ [t]) ++ b.tags.erase t) :=
        (List.perm_append_comm.append_left _).append_right _
      _ = b.acked ++ b.nacked ++ (t :: b.tags.erase t) := by simp
      _ |>.Perm (b.acked ++ b.nacked ++ b.tags) := (List.perm_cons_erase ht).symm.append_left _
      _ |>.Perm (List.range' 1 b.lastTag) := hb
  · intro u m hmem
    exact .inl ((still_record (.ack t) (by simp)).nacks u m hmem)

/-- An unsettled tag is rejected, and with it the other tags that the reject covers. -/
theorem nack_eq (hd : b.disposed = false) (ht : t ∈ b.tags) :
    b.nack t multiple = ({ b.record (.nack t multiple) with
      unsettled := b.unsettled.filter fun d => !covers t multiple d.1
      nacked := b.nacked ++ (b.unsettled.filter fun d => covers t multiple d.1).map (·.1)
      backlog := b.backlog ++ (b.unsettled.filter fun d => covers t multiple d.1).map (·.2) },
      .ok ()) := by
  have hun : (b.record (.nack t multiple)).isUnsettled t = true := isUnsettled_iff.2 ht
  rw [nack, onOpen, hd, if_neg Bool.false_ne_true, if_pos hun, List.partition_eq_filter_filter]
  rfl

theorem nack_of_unsettled (hd : b.disposed = false) (ht : t ∈ b.tags) :
    ∃ b', b.nack t multiple = (b', .ok ()) ∧
      Settles [(t, multiple)] (fun u => covers t multiple u = true) b b' ∧ b'.acked = b.acked ∧
      (∀ u, u ∈ b'.nacked ↔ u ∈ b.nacked ∨ u ∈ b.tags ∧ covers t multiple u = true) ∧
      b'.operations = b.operations ++ [.nack t multiple] := by
  refine ⟨_, nack_eq hd ht, ⟨rfl, rfl, rfl, rfl, rfl, ?_, ?_, ?_⟩, rfl, fun u => ?_, rfl⟩
  · intro u
    change u ∈ (b.unsettled.filter fun d => !covers t multiple d.1).map (·.1) ↔ _
    rw [tags_filter b fun u => !covers t multiple u, List.mem_filter]
    simp
  · intro hb
    change (b.acked ++
      (b.nacked ++ (b.unsettled.filter fun d => covers t multiple d.1).map (·.1)) ++
      (b.unsettled.filter fun d => !covers t multiple d.1).map (·.1)).Perm _
    rw [tags_filter b (covers t multiple), tags_filter b fun u => !covers t multiple u]
    have hsplit : (b.tags.filter (covers t multiple) ++
        b.tags.filter fun u => !covers t multiple u).Perm b.tags := List.filter_append_perm _ _
    rw [← List.append_assoc, List.append_assoc _ (b.tags.filter _)]
    exact (hsplit.append_left _).trans hb
  · intro u m hmem
    rcases List.mem_append.1 hmem with hmem | hmem
    · exact .inl hmem
    · cases List.mem_singleton.1 hmem
      exact .inr (List.mem_singleton.2 rfl)
  · rw [tags_filter b (covers t multiple), List.mem_append, List.mem_filter]

theorem ack_of_disposed (hd : b.disposed = true) : b.ack t = (b, .error .closed) := by
  rw [ack, onOpen, if_pos hd]

theorem nack_of_disposed (hd : b.disposed = true) :
    b.nack t multiple = (b, .error .closed) := by
  rw [nack, onOpen, if_pos hd]

/-! A channel with at most one consumer. -/

theorem publish_of_nobody {body : Body} (hc : b.consumers = []) :
    b.publish body = ({ b with backlog := b.backlog ++ [body] }, none) := by
  rw [publish, hc]
  rfl

theorem publish_of_single {body : Body} {c : Consumer κ} (hc : b.consumers = [c]) :
    b.publish body = ({ b with
      lastTag := b.lastTag + 1
      unsettled := b.unsettled ++ [(b.lastTag + 1, body)] }, some (b.lastTag + 1, c.sink)) := by
  rw [publish, hc]
  rfl

theorem Balanced.deliver {body : Body} (hb : b.Balanced) :
    ({ b with
      lastTag := b.lastTag + 1
      unsettled := b.unsettled ++ [(b.lastTag + 1, body)] } : Broker κ).Balanced := by
  rw [Balanced, tags, List.map_append, ← List.append_assoc, List.range'_concat, Nat.one_mul,
    Nat.add_comm 1]
  exact hb.append_right _

theorem start_of_open {tag : String} {priority : Int} {sink : κ} (hd : b.disposed = false) :
    b.start tag priority sink = ({ b.record (.start tag priority) with
      consumers := b.consumers ++ [⟨tag, priority, sink⟩] }, .ok ()) := by
  rw [start, onOpen, hd]
  rfl

theorem start_of_disposed {tag : String} {priority : Int} {sink : κ} (hd : b.disposed = true) :
    b.start tag priority sink = (b, .error .closed) := by
  rw [start, onOpen, if_pos hd]

theorem cancel_of_single {c : Consumer κ} (hd : b.disposed = false) (hc : b.consumers = [c]) :
    b.cancel c.tag =
      if b.holding then
        ({ b.record (.cancel c.tag) with consumers := [], held := b.held ++ [c] }, .ok none)
      else ({ b.record (.cancel c.tag) with consumers := [] }, .ok (some c)) := by
  have hrecord : (b.record (.cancel c.tag)).consumers = [c] := hc
  rw [cancel, onOpen, hd, if_neg Bool.false_ne_true]
  simp only [hrecord, List.find?_cons, beq_self_eq_true, List.eraseP_cons]
  rfl

theorem cancel_of_disposed {tag : String} (hd : b.disposed = true) :
    b.cancel tag = (b, .error .closed) := by
  rw [cancel, onOpen, if_pos hd]

end Intercept.Broker
