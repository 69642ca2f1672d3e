import Intercept.Proofs.Broker.Account
import Intercept.Proofs.Harness.Change
import Intercept.Proofs.Ledger.Account

/-! The books of a harness: its ledger, its claims, and the account of its broker. -/
namespace Intercept
variable {M : Type} {b b' : Broker Nat} {l l' : Ledger} {claims : List (Claim M)}
  {x : Claim M} {c t : Nat} {stage : ClaimStage}

/-- Whether the delivery of a claim is still to be settled. -/
def ClaimStage.isOpen : ClaimStage → Bool
  | settled => false
  | _ => true

/-- The tags of a list of claims. -/
def claimTags (claims : List (Claim M)) : List Nat := claims.map (·.tag)

/-- What holds of the books at all times. -/
structure Books (b : Broker Nat) (l : Ledger) (claims : List (Claim M)) : Prop where
  violations : b.violations = []
  balanced : b.Balanced
  sound : l.Sound
  last : l.lastObserved = b.lastTag
  within : l.Within {t | t ∈ claimTags claims}
  distinct : (claimTags claims).Nodup
  delivered : ∀ t ∈ claimTags claims, 0 < t ∧ t ≤ l.lastObserved
  unfinished : ∀ x ∈ claims, x.stage.isOpen = true → x.tag ∈ l.processing
  spared : ∀ t m, Operation.nack t m ∈ b.operations →
    ∀ x ∈ claims, x.stage.isOpen = true → Broker.covers t m x.tag = false

/-- What holds of the books until the harness ends. -/
structure Active (b : Broker Nat) (l : Ledger) (claims : List (Claim M)) : Prop
    extends Books b l claims where
  running : b.disposed = false
  tracks : l.Tracks {t | t ∈ b.tags}
  processing_open : ∀ t ∈ l.processing, ∃ x ∈ claims, x.tag = t ∧ x.stage.isOpen = true
  nacks_passed : ∀ t m, Operation.nack t m ∈ b.operations → t ≤ l.previouslyNackedThrough

theorem active_initial : Active ({} : Broker Nat) {} ([] : List (Claim M)) where
  violations := rfl
  balanced := Broker.balanced_initial
  sound := Ledger.sound_initial
  last := rfl
  within := Ledger.within_initial
  distinct := List.nodup_nil
  delivered := nofun
  unfinished := nofun
  spared := nofun
  running := rfl
  tracks := by
    have hnone : {t | t ∈ ({} : Broker Nat).tags} = ∅ := Set.ext fun t => by simp [Broker.tags]
    rw [hnone]
    exact Ledger.tracks_initial
  processing_open := fun t ht => (TagSet.not_mem_empty t ht).elim
  nacks_passed := nofun

/-! The broker goes on without settling anything. -/

theorem Books.still (h : Books b l claims) (hs : b.Still b') : Books b' l claims :=
  { h with
    violations := hs.violations.trans h.violations
    balanced := hs.balanced h.balanced
    last := h.last.trans hs.lastTag.symm
    spared := fun t m hmem => h.spared t m (hs.nacks t m hmem) }

theorem Active.still (h : Active b l claims) (hs : b.Still b') (hd : b'.disposed = b.disposed) :
    Active b' l claims where
  toBooks := h.toBooks.still hs
  running := hd.trans h.running
  tracks := by
    rw [hs.tags]
    exact h.tracks
  processing_open := h.processing_open
  nacks_passed := fun t m hmem => h.nacks_passed t m (hs.nacks t m hmem)

/-! A delivery and a claim on it. -/

theorem Active.deliver {body : Body} (h : Active b l claims) :
    Active { b with
      lastTag := b.lastTag + 1
      unsettled := b.unsettled ++ [(b.lastTag + 1, body)] } (l.observe (b.lastTag + 1)) claims := by
  have hlast : l.lastObserved + 1 = b.lastTag + 1 := by rw [h.last]
  have hobserved : (l.observe (b.lastTag + 1)).lastObserved = b.lastTag + 1 := by
    have := h.last
    simp only [Ledger.observe]
    omega
  refine ⟨⟨h.violations, h.balanced.deliver, ?_, hobserved,
    ⟨h.within.processing, h.within.acked, h.within.shouldNack⟩, h.distinct, ?_, h.unfinished,
    h.spared⟩, h.running, ?_, h.processing_open, h.nacks_passed⟩
  · rw [← hlast]
    exact h.sound.observe
  · intro t ht
    have := h.delivered t ht
    have := h.last
    rw [hobserved]
    omega
  · have hset : {t | t ∈ ({ b with
        lastTag := b.lastTag + 1
        unsettled := b.unsettled ++ [(b.lastTag + 1, body)] } : Broker Nat).tags} =
        insert (b.lastTag + 1) {t | t ∈ b.tags} := by
      ext t
      simp [Broker.tags, or_comm]
    rw [hset, ← hlast]
    exact h.tracks.observe h.sound

theorem Active.claim (h : Active b l claims) (hlt : l.previouslyNackedThrough < x.tag)
    (hle : x.tag ≤ l.lastObserved) (hfree : x.tag ∉ claimTags claims)
    (hopen : x.stage.isOpen = true) : Active b (l.startProcessing x.tag) (claims ++ [x]) := by
  obtain ⟨hdue, hs⟩ := h.within.due hlt hle hfree
  have htags : claimTags (claims ++ [x]) = claimTags claims ++ [x.tag] := List.map_append
  refine ⟨⟨h.violations, h.balanced, h.sound.startProcessing hdue hs, h.last, ?_, ?_, ?_, ?_, ?_⟩,
    h.running, h.tracks.startProcessing hdue, ?_, h.nacks_passed⟩
  · rw [htags]
    refine h.within.startProcessing (fun t ht => List.mem_append_left _ ht) ?_
    exact List.mem_append_right _ (List.mem_singleton.2 rfl)
  · rw [htags]
    exact h.distinct.append (List.nodup_singleton _) (by simpa using hfree)
  · intro t ht
    rw [htags, List.mem_append, List.mem_singleton] at ht
    rcases ht with ht | rfl
    · exact h.delivered t ht
    · exact ⟨hdue.1, hle⟩
  · intro y hy hyopen
    rcases List.mem_append.1 hy with hy | hy
    · exact TagSet.mem_insert.2 (.inr (h.unfinished y hy hyopen))
    · rw [List.mem_singleton.1 hy]
      exact TagSet.mem_insert.2 (.inl rfl)
  · intro t m hmem y hy hyopen
    rcases List.mem_append.1 hy with hy | hy
    · exact h.spared t m hmem y hy hyopen
    · rw [List.mem_singleton.1 hy]
      apply Bool.eq_false_iff.2
      intro hcov
      have := h.nacks_passed t m hmem
      have := Broker.le_of_covers hcov
      omega
  · intro t ht
    rcases TagSet.mem_insert.1 ht with rfl | ht
    · exact ⟨x, List.mem_append_right _ (List.mem_singleton.2 rfl), rfl, hopen⟩
    · obtain ⟨y, hy, hrest⟩ := h.processing_open t ht
      exact ⟨y, List.mem_append_left _ hy, hrest⟩

/-! A claim goes on. -/

/-- The claims after one of them has got to another stage. -/
def restage (claims : List (Claim M)) (c : Nat) (stage : ClaimStage) : List (Claim M) :=
  claims.modify c fun x => { x with stage }

theorem claimTags_restage : claimTags (restage claims c stage) = claimTags claims := by
  apply List.ext_getElem?
  intro k
  simp only [claimTags, restage, List.getElem?_map, List.getElem?_modify]
  cases claims[k]? with
  | none => rfl
  | some y =>
    by_cases hk : c = k
    · simp [hk]
    · simp [hk]

theorem mem_restage {y : Claim M} (hx : claims[c]? = some x) (hy : y ∈ restage claims c stage) :
    y = { x with stage } ∨ ∃ k, c ≠ k ∧ claims[k]? = some y := by
  obtain ⟨k, hk⟩ := List.getElem?_of_mem hy
  rcases getElem?_modify_some hk with ⟨hne, hk⟩ | ⟨rfl, z, hz, rfl⟩
  · exact .inr ⟨k, hne, hk⟩
  · rw [hx] at hz
    cases hz
    exact .inl rfl

theorem mem_restage_self (hx : claims[c]? = some x) :
    { x with stage } ∈ restage claims c stage := by
  refine List.mem_of_getElem? (i := c) ?_
  rw [restage, List.getElem?_modify_eq, hx]
  rfl

theorem mem_restage_of_ne {y : Claim M} {k : Nat} (hy : claims[k]? = some y) (hne : c ≠ k) :
    y ∈ restage claims c stage := by
  refine List.mem_of_getElem? (i := k) ?_
  rw [restage, List.getElem?_modify_ne _ _ hne, hy]

/-- Two claims are on different tags. -/
theorem Books.tag_ne {y : Claim M} {k : Nat} (h : Books b l claims) (hx : claims[c]? = some x)
    (hy : claims[k]? = some y) (hne : c ≠ k) : y.tag ≠ x.tag := by
  intro heq
  have hc : (claimTags claims)[c]? = some x.tag := by rw [claimTags, List.getElem?_map, hx]; rfl
  have hk : (claimTags claims)[k]? = some y.tag := by rw [claimTags, List.getElem?_map, hy]; rfl
  have hlt := (List.getElem?_eq_some_iff.1 hc).1
  exact hne ((List.getElem?_inj hlt h.distinct).1 (by rw [hc, hk, heq]))

theorem Books.restage (h : Books b l claims) (hx : claims[c]? = some x)
    (hopen : stage.isOpen = true → x.stage.isOpen = true) :
    Books b l (restage claims c stage) := by
  have hmem := List.mem_of_getElem? hx
  refine { h with
    within := ?_
    distinct := ?_
    delivered := ?_
    unfinished := ?_
    spared := ?_ }
  · rw [claimTags_restage]
    exact h.within
  · rw [claimTags_restage]
    exact h.distinct
  · rw [claimTags_restage]
    exact h.delivered
  · intro y hy hyopen
    rcases mem_restage hx hy with rfl | ⟨k, _, hk⟩
    · exact h.unfinished x hmem (hopen hyopen)
    · exact h.unfinished y (List.mem_of_getElem? hk) hyopen
  · intro t m hnack y hy hyopen
    rcases mem_restage hx hy with rfl | ⟨k, _, hk⟩
    · exact h.spared t m hnack x hmem (hopen hyopen)
    · exact h.spared t m hnack y (List.mem_of_getElem? hk) hyopen

theorem Active.restage (h : Active b l claims) (hx : claims[c]? = some x)
    (hopen : stage.isOpen = x.stage.isOpen) : Active b l (restage claims c stage) := by
  refine { h with
    toBooks := h.toBooks.restage hx fun ho => hopen ▸ ho
    processing_open := ?_ }
  intro t ht
  obtain ⟨y, hy, htag, hyopen⟩ := h.processing_open t ht
  obtain ⟨k, hk⟩ := List.getElem?_of_mem hy
  by_cases hck : c = k
  · subst hck
    rw [hx] at hk
    cases hk
    exact ⟨_, mem_restage_self hx, htag, hopen.trans hyopen⟩
  · exact ⟨y, mem_restage_of_ne hk hck, htag, hyopen⟩

/-! A claim ends. -/

/-- The ledger knows every open claim. -/
theorem Books.endProcessing (h : Books b l claims) (hx : x ∈ claims)
    (hopen : x.stage.isOpen = true) (settlement : Settlement) :
    ∃ l', l.endProcessing x.tag settlement = .ok l' ∧ l.Ended l' x.tag settlement :=
  Ledger.endProcessing_of_mem (h.unfinished x hx hopen) settlement

/-- The outcome of a claim is noted, and the claim is done. -/
theorem Books.finish {settlement : Settlement} (h : Books b l claims) (hx : claims[c]? = some x)
    (he : l.Ended l' x.tag settlement) : Books b l' (Intercept.restage claims c .settled) := by
  have hdone : ClaimStage.settled.isOpen = true → x.stage.isOpen = true := by
    simp [ClaimStage.isOpen]
  have hr : Books b l (Intercept.restage claims c .settled) := h.restage hx hdone
  refine { hr with
    sound := h.sound.ended he
    last := he.lastObserved.trans h.last
    within := hr.within.ended he
    delivered := ?_
    unfinished := ?_ }
  · rw [he.lastObserved]
    exact hr.delivered
  · intro y hy hyopen
    rcases mem_restage hx hy with rfl | ⟨k, hne, hk⟩
    · cases hyopen
    · have hproc := h.unfinished y (List.mem_of_getElem? hk) hyopen
      exact (he.processing y.tag).2 ⟨hproc, h.tag_ne hx hk hne⟩

/-- Other claims stay open. -/
theorem Active.finish_open {settlement : Settlement} (h : Active b l claims)
    (hx : claims[c]? = some x) (he : l.Ended l' x.tag settlement) :
    ∀ t ∈ l'.processing, ∃ y ∈ Intercept.restage claims c .settled,
      y.tag = t ∧ y.stage.isOpen = true := by
  intro t ht
  obtain ⟨ht, hne⟩ := (he.processing t).1 ht
  obtain ⟨y, hy, htag, hyopen⟩ := h.processing_open t ht
  obtain ⟨k, hk⟩ := List.getElem?_of_mem hy
  have hck : c ≠ k := by
    rintro rfl
    rw [hx] at hk
    cases hk
    exact hne htag.symm
  exact ⟨y, mem_restage_of_ne hk hck, htag, hyopen⟩

/-- A failure that the next teardown is to reject. -/
theorem Active.finish_later (h : Active b l claims) (hx : claims[c]? = some x)
    (he : l.Ended l' x.tag .shouldNack) :
    Active b l' (Intercept.restage claims c .settled) where
  toBooks := h.toBooks.finish hx he
  running := h.running
  tracks := Ledger.Tracks.ended_shouldNack h.tracks h.sound he
  processing_open := h.finish_open hx he
  nacks_passed := by
    rw [he.previous]
    exact h.nacks_passed

/-- Settlements of the broker that spare every open claim. -/
theorem Books.settles {rejects : List (Nat × Bool)} {p : Nat → Prop} (h : Books b l claims)
    (hs : Broker.Settles rejects p b b')
    (hspare : ∀ r ∈ rejects, ∀ x ∈ claims, x.stage.isOpen = true →
      Broker.covers r.1 r.2 x.tag = false) : Books b' l claims := by
  refine { h with
    violations := hs.violations.trans h.violations
    balanced := hs.balanced h.balanced
    last := h.last.trans hs.lastTag.symm
    spared := ?_ }
  intro t m hmem
  rcases hs.nacks t m hmem with hmem | hmem
  · exact h.spared t m hmem
  · exact hspare (t, m) hmem

/-- A claim is settled at the broker as it ends. If it is rejected, a teardown has passed it
over. -/
theorem Active.finish_now {settlement : Settlement} {rejects : List (Nat × Bool)} {p : Nat → Prop}
    (h : Active b l claims) (hx : claims[c]? = some x)
    (hset : settlement = .acked ∨ settlement = .alreadyNacked ∧ x.tag ≤ l.previouslyNackedThrough)
    (he : l.Ended l' x.tag settlement) (hs : Broker.Settles rejects p b b')
    (hp : ∀ u, p u ↔ u = x.tag)
    (hr : ∀ r ∈ rejects, r = (x.tag, false) ∧ x.tag ≤ l.previouslyNackedThrough) :
    Active b' l' (Intercept.restage claims c .settled) := by
  have hspare : ∀ r ∈ rejects, ∀ y ∈ Intercept.restage claims c .settled,
      y.stage.isOpen = true → Broker.covers r.1 r.2 y.tag = false := by
    intro r hmem y hy hyopen
    rcases mem_restage hx hy with rfl | ⟨k, hne, hk⟩
    · cases hyopen
    · rw [(hr r hmem).1]
      exact beq_false_of_ne (h.toBooks.tag_ne hx hk hne)
  refine ⟨(h.toBooks.finish hx he).settles hs hspare, hs.disposed.trans h.running, ?_,
    h.finish_open hx he, ?_⟩
  · have hleft : {t | t ∈ b'.tags} = {u ∈ {t | t ∈ b.tags} | u ≠ x.tag} := by
      ext u
      simp only [Set.mem_ofPred_eq, hs.tags, hp, ne_eq]
    rw [hleft]
    exact Ledger.Tracks.ended_settled h.tracks h.sound hset he
  · intro t m hmem
    rw [he.previous]
    rcases hs.nacks t m hmem with hmem | hmem
    · exact h.nacks_passed t m hmem
    · obtain ⟨heq, hle⟩ := hr (t, m) hmem
      cases heq
      exact hle

/-! A teardown. -/

theorem Books.spares (h : Books b l claims) :
    ∀ r ∈ l.plan.rejects, ∀ x ∈ claims, x.stage.isOpen = true →
      Broker.covers r.1 r.2 x.tag = false :=
  fun _ hr x hx hopen => h.sound.not_covered hr (h.unfinished x hx hopen)

/-- The ledger hands out its plan, some of which is carried out. -/
theorem Books.teardown {p : Nat → Prop} (h : Books b l claims)
    (hs : Broker.Settles l.plan.rejects p b b') : Books b' l.teardown.2 claims :=
  { h.settles hs h.spares with
    sound := h.sound.teardown
    within := h.within.teardown }

theorem Active.teardown (h : Active b l claims) (hs : Broker.Settles l.plan.rejects
      (fun t => ∃ r ∈ l.plan.rejects, Broker.covers r.1 r.2 t = true) b b') :
    Active b' l.teardown.2 claims := by
  refine ⟨h.toBooks.teardown hs, hs.disposed.trans h.running, ?_, h.processing_open, ?_⟩
  · have hleft : {t | t ∈ b'.tags} = {t | t ∈ l.processing} := by
      ext t
      rw [Set.mem_ofPred_eq, Set.mem_ofPred_eq, ← h.tracks.left_by_plan h.sound, hs.tags]
      simp
    rw [hleft]
    exact Ledger.tracks_teardown
  · intro t m hmem
    rcases hs.nacks t m hmem with hmem | hmem
    · exact (h.nacks_passed t m hmem).trans h.sound.previous_le
    · exact (h.sound.due_reject hmem).2.1

end Intercept
