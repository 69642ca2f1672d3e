import Intercept.Proofs.Harness.Entries

/-! How deliveries are reckoned with: whoever is owed a settlement is still unsettled, only a callback
that succeeded is acknowledged, and a failure is rejected or waits for the next teardown. -/
namespace Intercept
variable {M : Type}

theorem Claim.subject_eq_iff {x y : Claim M} : x.subject = y.subject ↔ x.tag = y.tag ∧
    x.wait = y.wait ∧ x.generation = y.generation ∧ x.message = y.message ∧
      x.callback = y.callback ∧ x.stage.isOpen = y.stage.isOpen := by
  simp [subject]

theorem Claim.ending_of_subject {x y : Claim M} (hs : x.subject = y.subject) :
    x.ending = y.ending := by
  rw [ending, ending, (subject_eq_iff.1 hs).2.2.2.2.1]

/-- A claim that was settled at the broker leaves the ledger. -/
theorem Ledger.Ended.owed {l l' : Ledger} {t u : Nat} {settlement : Settlement}
    (he : l.Ended l' t settlement) (hl : l.Sound) (hs : settlement ≠ .shouldNack)
    (hu : u ∈ l'.processing ∨ u ∈ l'.shouldNack) :
    (u ∈ l.processing ∨ u ∈ l.shouldNack) ∧ u ≠ t := by
  rcases hu with hu | hu
  · obtain ⟨hu, hne⟩ := (he.processing u).1 hu
    exact ⟨.inl hu, hne⟩
  · have hu := he.shouldNack_of_ne hs hu
    refine ⟨.inr hu, ?_⟩
    rintro rfl
    exact (hl.shouldNack_apart u hu).2 he.mem

namespace Harness
variable {cfg : Setup M} {h h' h₁ : Harness M} {c g : Nat} {x : Claim M}

theorem mem_of_subjects (hs : h'.subjects = h.subjects) (hx : x ∈ h'.claims) :
    ∃ y ∈ h.claims, y.subject = x.subject := by
  have hmem : x.subject ∈ h'.subjects := List.mem_map_of_mem hx
  rw [hs] at hmem
  exact List.mem_map.1 hmem

/-- Every delivery whose callback failed is rejected, or waits for the next teardown. -/
def SeenTo (h : Harness M) : Prop :=
  ∀ y ∈ h.claims, y.stage.isOpen = false →
    ∀ failure, y.ending = some (.error failure) →
      y.tag ∈ h.broker.nacked ∨ y.tag ∈ h.ledger.shouldNack

/-- What becomes of the claimed deliveries. -/
structure Reckoned (h : Harness M) : Prop where
  unsettled : ∀ t, t ∈ h.ledger.processing ∨ t ∈ h.ledger.shouldNack → t ∈ h.broker.tags
  spared : ∀ t m, Operation.nack t m ∈ h.broker.operations →
    ∀ u, u ∈ h.ledger.processing ∨ u ∈ h.ledger.shouldNack → Broker.covers t m u = false
  acked : ∀ t ∈ h.broker.acked, ∃ y ∈ h.claims, y.tag = t ∧
    y.ending = some (.ok ())

theorem reckoned_initial : (initial cfg).Reckoned where
  unsettled := by
    rintro t (ht | ht)
    · exact (TagSet.not_mem_empty t ht).elim
    · exact (TagSet.not_mem_empty t ht).elim
  spared := nofun
  acked := nofun

/-- What is owed a settlement was owed it before. -/
theorem Reckoned.owing (hr : h.Reckoned)
    (howed : ∀ u, u ∈ h'.ledger.processing ∨ u ∈ h'.ledger.shouldNack →
      (u ∈ h.ledger.processing ∨ u ∈ h.ledger.shouldNack) ∧
        (u ∈ h.broker.tags → u ∈ h'.broker.tags))
    (hnacks : ∀ t m, Operation.nack t m ∈ h'.broker.operations →
      Operation.nack t m ∈ h.broker.operations ∨
        ∀ u, u ∈ h'.ledger.processing ∨ u ∈ h'.ledger.shouldNack → Broker.covers t m u = false)
    (hacked : ∀ t ∈ h'.broker.acked, ∃ y ∈ h'.claims, y.tag = t ∧
      y.ending = some (.ok ())) : h'.Reckoned where
  unsettled := fun u hu => (howed u hu).2 (hr.unsettled u (howed u hu).1)
  spared := fun t m hmem u hu => by
    rcases hnacks t m hmem with hold | hnew
    · exact hr.spared t m hold u (howed u hu).1
    · exact hnew u hu
  acked := hacked

theorem Reckoned.acked_of_subjects (hr : h.Reckoned) (hs : h'.subjects = h.subjects)
    (hacked : h'.broker.acked = h.broker.acked) : ∀ t ∈ h'.broker.acked,
      ∃ y ∈ h'.claims, y.tag = t ∧ y.ending = some (.ok ()) := by
  intro t ht
  obtain ⟨y, hy, htag, hok⟩ := hr.acked t (hacked ▸ ht)
  obtain ⟨z, hz, heq⟩ := mem_of_subjects hs.symm hy
  exact ⟨z, hz, (Claim.subject_eq_iff.1 heq).1.trans htag, (Claim.ending_of_subject heq).trans hok⟩

theorem Reckoned.tidy (hr : h.Reckoned) (ht : h.Tidy h')
    (hnacks : ∀ t m, Operation.nack t m ∈ h'.broker.operations →
      Operation.nack t m ∈ h.broker.operations) : h'.Reckoned where
  unsettled := by
    rw [ht.ledger, ht.tags]
    exact hr.unsettled
  spared := by
    rw [ht.ledger]
    exact fun t m hmem => hr.spared t m (hnacks t m hmem)
  acked := hr.acked_of_subjects ht.subjects ht.acked

theorem SeenTo.tidy (hs : h.SeenTo) (ht : h.Tidy h') : h'.SeenTo := by
  rw [SeenTo, ht.ledger, ht.nacked]
  intro y hy hclosed failure hfailed
  obtain ⟨z, hz, heq⟩ := mem_of_subjects ht.subjects hy
  obtain ⟨htag, _, _, _, _, hstage⟩ := Claim.subject_eq_iff.1 heq
  rw [← htag]
  exact hs z hz (hstage.trans hclosed) failure ((Claim.ending_of_subject heq).trans hfailed)

theorem Silent.nacks (hs : h.Silent h') : ∀ t m, Operation.nack t m ∈ h'.broker.operations →
    Operation.nack t m ∈ h.broker.operations := by
  obtain ⟨tail, hlog, htail⟩ := hs.log
  intro t m hmem
  rw [hlog, List.mem_append] at hmem
  rcases hmem with hmem | hmem
  · exact hmem
  · cases htail _ hmem

theorem Reckoned.publish {body : Body} (hr : h.Reckoned) : (h.publish body).1.Reckoned := by
  rw [Harness.publish, Broker.publish]
  split
  · next hb =>
    split at hb
    · cases hb
      exact ⟨hr.unsettled, hr.spared, hr.acked⟩
    · cases hb
  · next hb =>
    split at hb
    · cases hb
    · cases hb
      refine ⟨fun t ht => ?_, hr.spared, hr.acked⟩
      refine List.mem_map.2 ?_
      obtain ⟨d, hd, htag⟩ := List.mem_map.1 (hr.unsettled t ht)
      exact ⟨d, List.mem_append_left _ hd, htag⟩

theorem Reckoned.publishAll {bodies : List Body} (hr : h.Reckoned) :
    (h.publishAll bodies).1.Reckoned := by
  induction bodies generalizing h with
  | nil => exact hr
  | cons body rest ih => exact ih hr.publish

theorem SeenTo.publishAll {bodies : List Body} (hs : h.SeenTo) :
    (h.publishAll bodies).1.SeenTo := by
  induction bodies generalizing h with
  | nil => exact hs
  | cons body rest ih =>
    have hpublished : (h.publish body).1.SeenTo := by
      rw [Harness.publish, Broker.publish]
      cases Broker.preferred h.broker.consumers with
      | none => exact hs
      | some c => exact hs
    exact ih hpublished

/-- The first delivery of a generation that hands out deliveries is due. -/
theorem Serves.fresh {d : Delivery} {rest : List Delivery} {y : Generation}
    (hs : h.Serves g d rest y) (hl : h.Live g) :
    h.ledger.previouslyNackedThrough < d.tag ∧ d.tag ≤ h.ledger.lastObserved ∧
      d.tag ∉ claimTags h.claims := by
  obtain ⟨deadline, hrouting⟩ := hs.routing
  obtain ⟨_, _, _, _, _, hfresh⟩ := hl.front.of_routing hs.found hrouting
  rw [hs.inbound] at hfresh
  exact hfresh.unclaimed d (List.mem_cons_self ..)

theorem Reckoned.routed {d : Delivery} (hr : h.Reckoned) (hl : h.Live g)
    (hrouted : h.Routed cfg g d h') : h'.Reckoned := by
  cases hrouted with
  | unclaimed rest y deadline _ => exact ⟨hr.unsettled, hr.spared, hr.acked⟩
  | claimed rest y m before v behind hs _ _ _ =>
    obtain ⟨hlt, hle, hfree⟩ := hs.fresh hl
    have hdue := (hl.active.within.due hlt hle hfree).1
    refine ⟨?_, ?_, fun t ht => ?_⟩
    · rintro t (ht | ht)
      · rcases TagSet.mem_insert.1 ht with rfl | ht
        · exact (hl.active.tracks _).2 (.inr hdue)
        · exact hr.unsettled t (.inl ht)
      · exact hr.unsettled t (.inr ht)
    · rintro t m hmem u (hu | hu)
      · rcases TagSet.mem_insert.1 hu with rfl | hu
        · apply Bool.eq_false_iff.2
          intro hcov
          have := hl.active.nacks_passed t m hmem
          have := Broker.le_of_covers hcov
          omega
        · exact hr.spared t m hmem u (.inl hu)
      · exact hr.spared t m hmem u (.inr hu)
    · obtain ⟨z, hz, hrest⟩ := hr.acked t ht
      exact ⟨z, List.mem_append_left _ hz, hrest⟩

theorem SeenTo.routed {d : Delivery} (hs : h.SeenTo) (hrouted : h.Routed cfg g d h') :
    h'.SeenTo := by
  cases hrouted with
  | unclaimed rest y deadline _ => exact hs
  | claimed rest y m before v behind _ _ _ _ =>
    intro z hz hclosed failure hfailed
    rcases List.mem_append.1 hz with hz | hz
    · exact hs z hz hclosed failure hfailed
    · rw [List.mem_singleton.1 hz] at hclosed
      cases hclosed

/-- What a claim was asked to do decides how its callback ended. -/
theorem Attended.result_of_returned {result : Except Failure Unit} (ha : h.Attended cfg)
    (hx : h.claims[c]? = some x) (hs : x.stage = .running (.returned result)) :
    x.ending = some result := by
  obtain ⟨w, _, _, _, hb⟩ := ha.wait_of_claim (List.mem_of_getElem? hx)
  exact (hb.fits.of_running hs).2.1

section
variable {result : Except Failure Unit} {b : Broker Nat} {l : Ledger} {ends : Bool}

/-- A claim is settled. -/
theorem Reckoned.concluded (hr : h.Reckoned) (ha : h.Attended cfg) (hi : h.Settled)
    (hx : h.claims[c]? = some x) (hs : x.stage = .running (.returned result))
    (hsettling : x.Settling h.Over h.broker h.ledger result b l ends)
    (hb : h'.broker = b) (hl : h'.ledger = l)
    (hc : h'.claims = restage h.claims c .settled) : h'.Reckoned := by
  have hresult := ha.result_of_returned hx hs
  have hsound := hi.books.sound
  -- Who was acknowledged before was claimed before.
  have hold : ∀ t ∈ h.broker.acked, ∃ y ∈ h'.claims, y.tag = t ∧
      y.ending = some (.ok ()) := by
    intro t ht
    obtain ⟨y, hy, htag, hok⟩ := hr.acked t ht
    obtain ⟨k, hk⟩ := List.getElem?_of_mem hy
    rw [hc]
    by_cases hck : c = k
    · subst hck
      obtain rfl := Option.some.inj (hx.symm.trans hk)
      exact ⟨_, mem_restage_self hx, htag, hok⟩
    · exact ⟨y, mem_restage_of_ne hk hck, htag, hok⟩
  cases hsettling with
  | acked b' l' _ he hset hacked hnacked hops =>
    subst hb hl
    refine hr.owing (fun u hu => ?_) (fun t m hmem => ?_) fun t ht => ?_
    · obtain ⟨hu, hne⟩ := he.owed hsound (by simp) hu
      exact ⟨hu, fun htags => (hset.tags u).2 ⟨htags, hne⟩⟩
    · rw [hops, List.mem_append] at hmem
      exact .inl (hmem.resolve_right (by simp))
    · rw [hacked, List.mem_append, List.mem_singleton] at ht
      rcases ht with ht | rfl
      · exact hold t ht
      · rw [hc]
        exact ⟨_, mem_restage_self hx, rfl, hresult⟩
  | lost =>
    exact hr.owing (fun _ hu => ⟨hl ▸ hu, hb ▸ id⟩) (fun _ _ hmem => .inl (hb ▸ hmem)) (hb ▸ hold)
  | rejected failure b' l' _ _ he hset hacked _ hops =>
    subst hb hl
    refine hr.owing (fun u hu => ?_) (fun t m hmem => ?_) (hacked ▸ hold)
    · obtain ⟨hu, hne⟩ := he.owed hsound (by simp) hu
      exact ⟨hu, fun htags => (hset.tags u).2 ⟨htags, hne⟩⟩
    · rw [hops, List.mem_append] at hmem
      refine hmem.imp_right fun hmem u hu => ?_
      cases List.mem_singleton.1 hmem
      exact beq_false_of_ne (he.owed hsound (by simp) hu).2
  | dropped failure l' _ he =>
    subst hl
    exact hr.owing (fun u hu => ⟨(he.owed hsound (by simp) hu).1, hb ▸ id⟩)
      (fun _ _ hmem => .inl (hb ▸ hmem)) (hb ▸ hold)
  | deferred failure l' _ he =>
    subst hl
    refine hr.owing (fun u hu => ⟨?_, hb ▸ id⟩) (fun _ _ hmem => .inl (hb ▸ hmem)) (hb ▸ hold)
    rcases hu with hu | hu
    · exact .inl ((he.processing u).1 hu).1
    · rcases (he.shouldNack u).1 hu with hu | ⟨_, rfl⟩
      · exact .inr hu
      · exact .inl he.mem

theorem SeenTo.concluded (hseen : h.SeenTo) (ha : h.Attended cfg)
    (hx : h.claims[c]? = some x) (hs : x.stage = .running (.returned result))
    (hsettling : x.Settling h.Over h.broker h.ledger result b l false)
    (hb : h'.broker = b) (hl : h'.ledger = l)
    (hc : h'.claims = restage h.claims c .settled) : h'.SeenTo := by
  have hresult := ha.result_of_returned hx hs
  rw [SeenTo, hc]
  intro y hy hclosed failure hfailed
  rcases mem_restage hx hy with rfl | ⟨k, hk, hy⟩
  · change x.ending = some (.error failure) at hfailed
    rw [hfailed] at hresult
    cases hresult
    cases hsettling with
    | rejected _ _ _ _ _ _ _ _ hnacked _ => exact .inl (hb ▸ (hnacked x.tag).2 (.inr rfl))
    | deferred _ _ _ he => exact .inr (hl ▸ (he.shouldNack x.tag).2 (.inr ⟨rfl, rfl⟩))
  · rcases hseen y (List.mem_of_getElem? hy) hclosed failure hfailed with hmem | hmem
    · cases hsettling with
      | acked _ _ _ _ _ _ hnacked _ =>
        rw [← hb] at hnacked
        exact .inl (hnacked ▸ hmem)
      | rejected _ _ _ _ _ _ _ _ hnacked _ => exact .inl (hb ▸ (hnacked _).2 (.inl hmem))
      | deferred _ _ _ _ => exact .inl (hb ▸ hmem)
    · cases hsettling with
      | acked _ _ _ he _ _ _ _ => exact .inr (hl ▸ (he.shouldNack _).2 (.inl hmem))
      | rejected _ _ _ _ _ he _ _ _ _ => exact .inr (hl ▸ (he.shouldNack _).2 (.inl hmem))
      | deferred _ _ _ he => exact .inr (hl ▸ (he.shouldNack _).2 (.inl hmem))

end

section
variable {before after : List Operation}

theorem Reckoned.passed (hr : h.Reckoned) (hi : h.Settled)
    (hp : h.Passed g before after h') : h'.Reckoned := by
  have howed : ∀ u, u ∈ h'.ledger.processing ∨ u ∈ h'.ledger.shouldNack →
      u ∈ h.ledger.processing := by
    rw [hp.ledger]
    rintro u (hu | hu)
    · exact hu
    · exact (TagSet.not_mem_empty u hu).elim
  refine hr.owing (fun u hu => ⟨.inl (howed u hu), hp.spared u (howed u hu)⟩)
    (fun t m hmem => ?_) (hr.acked_of_subjects hp.subjects hp.acked)
  obtain ⟨tail, hlog, hops, _⟩ := hp.log
  rw [hlog, List.mem_append] at hmem
  refine hmem.imp_right fun hmem u hu => ?_
  exact hi.books.sound.not_covered ((hops _ hmem).2 t m rfl) (howed u hu)

/-- A pass rejects every failure that waits for it. -/
theorem Passed.rejects (hp : h.Passed g before after h') (hr : h.Reckoned) (hi : h.Settled)
    (hf : h'.failure = none) {t : Nat} (ht : t ∈ h.ledger.shouldNack) : t ∈ h'.broker.nacked := by
  obtain ⟨hpos, hle⟩ := hi.books.sound.shouldNack_delivered t ht
  exact (hp.unfailed hf).2.2.2.2 t (hr.unsettled t (.inr ht)) ⟨hpos, hle, .inl ht⟩

theorem SeenTo.passed (hs : h.SeenTo) (hr : h.Reckoned) (hi : h.Settled)
    (hp : h.Passed g before after h') (hf : h'.failure = none) : h'.SeenTo := by
  intro y hy hclosed failure hfailed
  obtain ⟨z, hz, heq⟩ := mem_of_subjects hp.subjects hy
  obtain ⟨htag, _, _, _, _, hstage⟩ := Claim.subject_eq_iff.1 heq
  rw [← htag]
  rcases hs z hz (hstage.trans hclosed) failure ((Claim.ending_of_subject heq).trans hfailed) with hmem | hmem
  · exact .inl (hp.nacked _ hmem)
  · exact .inl (hp.rejects hr hi hf hmem)

end

/-! Runs. -/

theorem failure_publishAll {bodies : List Body} :
    (h.publishAll bodies).1.failure = h.failure := by
  induction bodies generalizing h with
  | nil => rfl
  | cons body rest ih =>
    have hpublished : (h.publish body).1.failure = h.failure := by
      rw [Harness.publish, Broker.publish]
      cases Broker.preferred h.broker.consumers <;> rfl
    exact ih.trans hpublished

/-- A harness that has failed does not recover. -/
theorem Entry.unfailed (he : h.Entry cfg h') (ha : h.Attended cfg) (hi : h.Settled)
    (hp : h.Paired) (hf : h'.failure = none) : h.failure = none := by
  cases he with
  | quiet hd => exact ((Deeds.tidy ha hd).2.unfailed hf).1
  | published bodies => exact failure_publishAll.symm.trans hf
  | routed g d h₁ _ _ hnone _ => exact hnone
  | attached g c hnone _ _ _ _ _ _ _ _ => exact hnone
  | withheld g c hnone _ _ _ _ _ _ _ => exact hnone
  | concluded c x result outcome broker ledger ends hx hs hsettling _ hd _ =>
    by_contra hne
    exact failure_deeds hd hne hf
  | passed g hpass hl =>
    obtain ⟨before, after, _, hpassed⟩ := hpass.passed ha hi hp hl
    exact (hpassed.unfailed hf).1

theorem Entry.reckoned (he : h.Entry cfg h') (hr : h.Reckoned) (ha : h.Attended cfg)
    (hi : h.Settled) (hp : h.Paired) : h'.Reckoned := by
  cases he with
  | quiet hd =>
    obtain ⟨htidy, hsilent⟩ := Deeds.tidy ha hd
    exact hr.tidy htidy hsilent.nacks
  | published bodies => exact hr.publishAll
  | routed g d h₁ hrouted hd _ hl =>
    obtain ⟨htidy, hsilent⟩ := Deeds.tidy (ha.routed hp hrouted) hd
    exact (hr.routed hl hrouted).tidy htidy hsilent.nacks
  | attached g c _ _ _ _ htidy _ hops _ _ =>
    refine hr.tidy htidy fun t m hmem => ?_
    rw [hops, List.mem_append] at hmem
    rcases hmem with hmem | hmem
    · exact hmem
    · cases List.mem_singleton.1 hmem
  | withheld g c _ _ htidy _ _ hops _ _ =>
    refine hr.tidy htidy fun t m hmem => ?_
    rw [hops, List.mem_append] at hmem
    rcases hmem with hmem | hmem
    · exact hmem
    · cases List.mem_singleton.1 hmem
  | concluded c x result outcome broker ledger ends hx hs hsettling hmid hd _ =>
    obtain ⟨htidy, hsilent⟩ := Deeds.tidy hmid hd
    exact (hr.concluded ha hi hx hs hsettling rfl rfl rfl).tidy htidy hsilent.nacks
  | passed g hpass hl =>
    obtain ⟨before, after, _, hpassed⟩ := hpass.passed ha hi hp hl
    exact hr.passed hi hpassed

section
variable {s : Nat → Harness M} {n : Nat}

theorem Run.settled (hr : Run cfg (fun a => a.isForeign = false) s) (n : Nat) : (s n).Settled :=
  settled_reachable (hr.alone n)

theorem Run.paired {allowed : Act M → Prop} (hr : Run cfg allowed s) (n : Nat) : (s n).Paired :=
  paired_reachable (hr.reachable n)

theorem Run.reckoned (hr : Run cfg (fun a => a.isForeign = false) s) (n : Nat) :
    (s n).Reckoned := by
  induction n with
  | zero =>
    rw [hr.start]
    exact reckoned_initial
  | succ n ih => exact (hr.entry n).reckoned ih (hr.attended n) (hr.settled n) (hr.paired n)

theorem Run.unfailed_of_succ (hr : Run cfg (fun a => a.isForeign = false) s)
    (hf : (s (n + 1)).failure = none) : (s n).failure = none :=
  (hr.entry n).unfailed (hr.attended n) (hr.settled n) (hr.paired n) hf

theorem Run.unfailed_of_le {m : Nat} (hr : Run cfg (fun a => a.isForeign = false) s) (hle : m ≤ n)
    (hf : (s n).failure = none) : (s m).failure = none := by
  induction n, hle using Nat.le_induction with
  | base => exact hf
  | succ n _ ih => exact ih (hr.unfailed_of_succ hf)

end

end Harness
end Intercept
