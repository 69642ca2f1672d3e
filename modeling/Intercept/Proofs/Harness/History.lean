import Intercept.Proofs.Harness.Reckoned

/-! The history of a run: how a claim began, and what becomes of the ledger between two passes. -/
namespace Intercept
variable {M : Type} {claims : List (Claim M)} {c : Nat} {stage : ClaimStage}

/-- Which delivery a claim is on and for whom, and what is to be done for it. -/
def Claim.deal (x : Claim M) : Nat × Nat × Nat × M × Option (List Action) :=
  (x.tag, x.wait, x.generation, x.message, x.callback)

theorem Claim.deal_eq_iff {x y : Claim M} : x.deal = y.deal ↔ x.tag = y.tag ∧ x.wait = y.wait ∧
    x.generation = y.generation ∧ x.message = y.message ∧ x.callback = y.callback := by
  simp [deal]

theorem Claim.ending_of_deal {x y : Claim M} (hd : x.deal = y.deal) : x.ending = y.ending := by
  rw [ending, ending, (deal_eq_iff.1 hd).2.2.2.2]

theorem deals_restage : (restage claims c stage).map Claim.deal = claims.map Claim.deal := by
  apply List.ext_getElem?
  intro k
  rw [restage, List.getElem?_map, List.getElem?_map, List.getElem?_modify]
  cases claims[k]? with
  | none => rfl
  | some x =>
    by_cases hk : c = k
    · simp [hk, Claim.deal]
    · simp [hk]

namespace Harness
variable {cfg : Setup M} {loud : Prop} {h h' h₁ : Harness M} {g m n : Nat} {x : Claim M}
  {allowed : Act M → Prop} {s : Nat → Harness M}

/-- Which deliveries are claimed, in the order of the claims. -/
def deals (h : Harness M) : List (Nat × Nat × Nat × M × Option (List Action)) :=
  h.claims.map Claim.deal

theorem deals_of_some (hx : h.claims[c]? = some x) : h.deals[c]? = some x.deal := by
  rw [deals, List.getElem?_map, hx]
  rfl

theorem claim_of_deal {p : Nat × Nat × Nat × M × Option (List Action)}
    (hp : h.deals[c]? = some p) : ∃ x, h.claims[c]? = some x ∧ x.deal = p := by
  rw [deals, List.getElem?_map] at hp
  exact Option.map_eq_some_iff.1 hp

/-! How a claim begins. -/

/-- A waiter of the claim's wait takes the delivery that its generation hands out. -/
structure Takes (cfg : Setup M) (h : Harness M) (d : Delivery) (x : Claim M) : Prop where
  serves : ∃ rest y, h.Serves x.generation d rest y
  tag : d.tag = x.tag
  decoded : cfg.format.decode? d.body = some x.message
  handled : x.callback = cfg.callback x.message h.claims.length
  listed : ∃ before v behind, h.waiters = before ++ v :: behind ∧ v.id = x.wait ∧
    v.matchesMessage x.message = true

theorem Takes.congr {d : Delivery} {y : Claim M} (ht : h.Takes cfg d x) (hd : y.deal = x.deal) :
    h.Takes cfg d y := by
  obtain ⟨htag, hwait, hgeneration, hmessage, hcallback⟩ := Claim.deal_eq_iff.1 hd
  exact ⟨hgeneration ▸ ht.serves, ht.tag.trans htag.symm, hmessage ▸ ht.decoded,
    hcallback ▸ hmessage ▸ ht.handled, hwait ▸ hmessage ▸ ht.listed⟩

theorem Deed.deals (hd : Deed loud h h') : h'.deals = h.deals := by
  cases hd with
  | quiet hs =>
    simp only [scene, Prod.mk.injEq] at hs
    exact congrArg (List.map Claim.deal) hs.2.2.1
  | began c x actions _ _ =>
    obtain ⟨notes, heq, _⟩ := act_eq (h.noteCall (.began x.tag x.message)) c x actions
    rw [heq]
    exact deals_restage
  | resumed c x actions _ _ =>
    obtain ⟨notes, heq, _⟩ := act_eq h c x actions
    rw [heq]
    exact deals_restage
  | queued c _ _ _ | granted c _ _ | launched c _ _ _ _ _ | brokeOff c _ _ _ _
  | answered c _ _ _ _ _ _ _ _ _ _ => exact deals_restage
  | _ => rfl

theorem Deeds.deals (hd : Deeds loud h h') : h'.deals = h.deals := by
  induction hd with
  | refl => rfl
  | tail _ hone ih => exact hone.deals.trans ih

/-- A claim stays the same, or begins with this turn. -/
theorem Turn.deals (ht : h.Turn cfg h') :
    h'.deals = h.deals ∨ ∃ d x, h.Takes cfg d x ∧ h'.deals = h.deals ++ [x.deal] := by
  rcases ht with hd | ⟨g, d, h₁, hr, hd⟩
  · exact .inl hd.deals
  · rw [hd.deals]
    cases hr with
    | unclaimed rest y deadline _ => exact .inl rfl
    | claimed rest y m before v behind hs hdecode hw hmatch =>
      refine .inr ⟨d, v.claim g d m (cfg.callback m h.claims.length), ?_, List.map_append⟩
      exact ⟨⟨rest, y, hs⟩, rfl, hdecode, rfl, before, v, behind, hw, rfl, hmatch⟩

theorem Run.turn (hr : Run cfg allowed s) (n : Nat) : (s n).Turn cfg (s (n + 1)) := by
  rcases hr.next n with heq | hm
  · rw [heq]
    exact .inl .refl
  · exact turn_of_moves (hr.attended n) (hr.paired n) hm

/-- A claim stays on its delivery. -/
theorem Run.deal_of_le {p : Nat × Nat × Nat × M × Option (List Action)}
    (hr : Run cfg allowed s) (hle : m ≤ n) (hp : (s m).deals[c]? = some p) : (s n).deals[c]? = some p := by
  induction n, hle using Nat.le_induction with
  | base => exact hp
  | succ n _ ih =>
    rcases (hr.turn n).deals with heq | ⟨d, x, _, heq⟩
    · rw [heq]
      exact ih
    · rw [heq, List.getElem?_append_left (List.getElem?_eq_some_iff.1 ih).1]
      exact ih

/-- Each claim began as a waiter took its delivery. -/
theorem Run.taken (hr : Run cfg allowed s) (hx : (s n).claims[c]? = some x) :
    ∃ k < n, (∃ d, (s k).Takes cfg d x) ∧ (s k).claims.length = c ∧
      (s (k + 1)).deals[c]? = some x.deal := by
  induction n generalizing x with
  | zero =>
    rw [hr.start] at hx
    cases hx
  | succ n ih =>
    have hdeal := deals_of_some hx
    have hold : (s n).deals[c]? = some x.deal → ∃ k < n + 1, (∃ d, (s k).Takes cfg d x) ∧
        (s k).claims.length = c ∧ (s (k + 1)).deals[c]? = some x.deal := by
      intro hbefore
      obtain ⟨y, hy, heq⟩ := claim_of_deal hbefore
      obtain ⟨k, hk, ⟨d, htakes⟩, hlen, hafter⟩ := ih hy
      exact ⟨k, by omega, ⟨d, htakes.congr heq.symm⟩, hlen, heq ▸ hafter⟩
    rcases (hr.turn n).deals with heq | ⟨d, y, htakes, heq⟩
    · exact hold (heq ▸ hdeal)
    · have hdeal' := hdeal
      rw [heq, List.getElem?_append] at hdeal'
      split at hdeal'
      · exact hold hdeal'
      · next hge =>
        obtain ⟨hlt, hy⟩ := List.getElem?_eq_some_iff.1 hdeal'
        rw [List.length_singleton] at hlt
        have hc : (s n).claims.length = c := by
          rw [Harness.deals, List.length_map] at hge hlt
          omega
        rw [List.getElem_singleton] at hy
        exact ⟨n, Nat.lt_succ_self n, ⟨d, htakes.congr hy.symm⟩, hc, hdeal⟩

/-! Who is listed. -/

/-- The waits whose waiters are listed, in the order of their registration. -/
def roll (h : Harness M) : List Nat := h.waiters.map (·.id)

/-- Waits leave the roll, and newly registered ones come last. As long as one of them stays, the
current generation is the same. -/
structure Rolls (h h' : Harness M) : Prop where
  enrolled : ∀ i, h.Enrolled i → h'.Enrolled i
  roll : Renewed h.Enrolled h.roll h'.roll
  current : ∀ i ∈ h'.roll, h.Enrolled i → h'.current = h.current

theorem mem_roll {i : Nat} : i ∈ h.roll ↔ h.waitersOf i ≠ [] := by
  rw [roll, List.mem_map, waitersOf, ne_eq, List.filter_eq_nil_iff]
  simp

theorem Rolls.refl : h.Rolls h :=
  ⟨fun _ hi => hi, .of_sublist (.refl _), fun _ _ _ => rfl⟩

theorem Rolls.trans (hd : h.Rolls h₁) (hd' : h₁.Rolls h') : h.Rolls h' where
  enrolled := fun i hi => hd'.enrolled i (hd.enrolled i hi)
  roll := hd.roll.trans hd'.roll hd.enrolled
  current := fun i hi ho => by
    have hi' := hd.enrolled i ho
    rw [hd'.current i hi hi', hd.current i (hd'.roll.mem hi hi') ho]

theorem Lists.rolls (hd : h.Lists h') : h.Rolls h' where
  enrolled := hd.enrolled
  roll := hd.waiters.map
  current := fun i hi ho => by
    obtain ⟨v, hv, rfl⟩ := List.mem_map.1 hi
    exact hd.current v hv ho

theorem roll_seen {d : Delivery} {waiters : List (Waiter M)} :
    (cfg.seen d waiters).map (·.id) = waiters.map (·.id) := by
  simp [Setup.seen]

theorem Routed.rolls {d : Delivery} (hr : h.Routed cfg g d h') : h.Rolls h' := by
  have hsub : h'.waits = h.waits → h'.current = h.current → h'.roll.Sublist h.roll →
      h.Rolls h' := by
    intro hw hc hs
    refine ⟨fun i hi => ?_, .of_sublist hs, fun _ _ _ => hc⟩
    rw [Enrolled, hw]
    exact hi
  cases hr with
  | unclaimed rest y deadline _ =>
    refine hsub rfl rfl ?_
    change ((cfg.seen d h.waiters).map (·.id)).Sublist _
    rw [roll_seen]
    exact .refl _
  | claimed rest y m before v behind _ _ hw _ =>
    refine hsub rfl rfl ?_
    change ((cfg.seen d before ++ behind).map (·.id)).Sublist (h.waiters.map (·.id))
    rw [hw, List.map_append, roll_seen, List.map_append]
    exact (List.sublist_cons_self ..).append_left _

theorem Turn.rolls (ht : h.Turn cfg h') : h.Rolls h' := by
  rcases ht with hd | ⟨g, d, h₁, hr, hd⟩
  · exact hd.lists.rolls
  · exact hr.rolls.trans hd.lists.rolls

theorem Run.rolls (hr : Run cfg allowed s) (hle : m ≤ n) : (s m).Rolls (s n) := by
  induction n, hle using Nat.le_induction with
  | base => exact .refl
  | succ n _ ih => exact ih.trans (hr.turn n).rolls

theorem Run.grows (hr : Run cfg allowed s) (hle : m ≤ n) : (s m).Grows (s n) := by
  induction n, hle using Nat.le_induction with
  | base => exact .refl
  | succ n _ ih => exact ih.trans ((hr.turn n).grows (hr.attended n) (hr.paired n))

/-! Between two passes. -/

/-- The ledger goes on without a teardown. -/
structure Bides (h h' : Harness M) : Prop where
  previous : h'.ledger.previouslyNackedThrough = h.ledger.previouslyNackedThrough
  processing : ∀ t ∈ h'.ledger.processing,
    t ∈ h.ledger.processing ∨ h.ledger.previouslyNackedThrough < t ∧ t ∉ claimTags h.claims
  shouldNack : ∀ t ∈ h'.ledger.shouldNack, t ∈ h.ledger.shouldNack ∨ t ∈ h.ledger.processing
  kept : ∀ t ∈ h.ledger.shouldNack, t ∈ h'.ledger.shouldNack

theorem Bides.of_eq (hl : h'.ledger = h.ledger) : h.Bides h' := by
  refine ⟨?_, ?_, ?_, ?_⟩ <;> rw [hl]
  · exact fun t ht => .inl ht
  · exact fun t ht => .inl ht
  · exact fun t ht => ht

theorem Bides.of_ended {settlement : Settlement} {t : Nat}
    (he : h.ledger.Ended h'.ledger t settlement) : h.Bides h' where
  previous := he.previous
  processing := fun u hu => .inl ((he.processing u).1 hu).1
  shouldNack := by
    intro u hu
    rcases (he.shouldNack u).1 hu with hu | ⟨_, rfl⟩
    · exact .inl hu
    · exact .inr he.mem
  kept := fun u hu => (he.shouldNack u).2 (.inl hu)

theorem Bides.of_settling {past : Prop} {result : Except Failure Unit} {b : Broker Nat}
    {ends : Bool} (hs : x.Settling past h.broker h.ledger result b h'.ledger ends) :
    h.Bides h' := by
  generalize hl : h'.ledger = l at hs
  cases hs with
  | acked b' l' _ he _ _ _ _ => exact .of_ended (hl ▸ he)
  | lost => exact .of_eq hl
  | rejected failure b' l' _ _ he _ _ _ _ => exact .of_ended (hl ▸ he)
  | dropped failure l' _ he => exact .of_ended (hl ▸ he)
  | deferred failure l' _ he => exact .of_ended (hl ▸ he)

theorem Bides.tidy (hb : h.Bides h₁) (ht : h₁.Tidy h') : h.Bides h' := by
  refine ⟨?_, ?_, ?_, ?_⟩ <;> rw [ht.ledger]
  · exact hb.previous
  · exact hb.processing
  · exact hb.shouldNack
  · exact hb.kept

theorem ledger_publish {body : Body} :
    ∃ last, (h.publish body).1.ledger = { h.ledger with lastObserved := last } := by
  rw [Harness.publish]
  split
  · exact ⟨_, rfl⟩
  · exact ⟨_, rfl⟩

theorem ledger_publishAll {bodies : List Body} :
    ∃ last, (h.publishAll bodies).1.ledger = { h.ledger with lastObserved := last } := by
  induction bodies generalizing h with
  | nil => exact ⟨_, rfl⟩
  | cons body rest ih =>
    obtain ⟨last, hlast⟩ := @ledger_publish M h body
    obtain ⟨last', hlast'⟩ := @ih (h.publish body).1
    exact ⟨last', hlast'.trans (by rw [hlast])⟩

theorem Bides.of_routed {d : Delivery} (hl : h.Live g) (hr : h.Routed cfg g d h') :
    h.Bides h' := by
  cases hr with
  | unclaimed rest y deadline _ => exact .of_eq rfl
  | claimed rest y m before v behind hs _ _ _ =>
    obtain ⟨hlt, _, hfree⟩ := hs.fresh hl
    refine ⟨rfl, fun t ht => ?_, fun t ht => .inl ht, fun t ht => ht⟩
    rcases TagSet.mem_insert.1 ht with rfl | ht
    · exact .inr ⟨hlt, hfree⟩
    · exact .inl ht

/-- A move is a ledger pass, or the ledger goes on without one. -/
theorem Entry.bides (he : h.Entry cfg h') (ha : h.Attended cfg) (hp : h.Paired) :
    (∃ g, h.Passes cfg g h') ∨ h.Bides h' := by
  cases he with
  | quiet hd => exact .inr (.of_eq (Deeds.tidy ha hd).1.ledger)
  | published bodies =>
    obtain ⟨last, heq⟩ := @ledger_publishAll M h bodies
    refine .inr ⟨?_, ?_, ?_, ?_⟩ <;> rw [heq]
    · exact fun t ht => .inl ht
    · exact fun t ht => .inl ht
    · exact fun t ht => ht
  | routed g d h₁ hr hd _ hl =>
    exact .inr ((Bides.of_routed hl hr).tidy (Deeds.tidy (ha.routed hp hr) hd).1)
  | attached g c _ _ _ _ htidy _ _ _ _ | withheld g c _ _ htidy _ _ _ _ _ =>
    exact .inr (.of_eq htidy.ledger)
  | concluded c x result outcome broker ledger ends _ _ hsettling hmid hd _ =>
    have hb : h.Bides (h.answered c x outcome broker ledger) := .of_settling hsettling
    exact .inr (hb.tidy (Deeds.tidy hmid hd).1)
  | passed g hpass _ => exact .inl ⟨g, hpass⟩

/-! What was settled stays settled. -/

theorem acked_publishAll {bodies : List Body} :
    (h.publishAll bodies).1.broker.acked = h.broker.acked ∧
      (h.publishAll bodies).1.broker.nacked = h.broker.nacked := by
  induction bodies generalizing h with
  | nil => exact ⟨rfl, rfl⟩
  | cons body rest ih =>
    have hpublished : (h.publish body).1.broker.acked = h.broker.acked ∧
        (h.publish body).1.broker.nacked = h.broker.nacked := by
      rw [Harness.publish, Broker.publish]
      cases Broker.preferred h.broker.consumers <;> exact ⟨rfl, rfl⟩
    exact ⟨ih.1.trans hpublished.1, ih.2.trans hpublished.2⟩

theorem Entry.settled (he : h.Entry cfg h') (ha : h.Attended cfg) (hi : h.Settled)
    (hp : h.Paired) : (∀ t ∈ h.broker.acked, t ∈ h'.broker.acked) ∧
      ∀ t ∈ h.broker.nacked, t ∈ h'.broker.nacked := by
  have of_eq : ∀ {b : Broker Nat}, b.acked = h.broker.acked → b.nacked = h.broker.nacked →
      (∀ t ∈ h.broker.acked, t ∈ b.acked) ∧ ∀ t ∈ h.broker.nacked, t ∈ b.nacked :=
    fun hacked hnacked => ⟨fun _ ht => hacked ▸ ht, fun _ ht => hnacked ▸ ht⟩
  cases he with
  | quiet hd =>
    have htidy := (Deeds.tidy ha hd).1
    exact of_eq htidy.acked htidy.nacked
  | published bodies => exact of_eq acked_publishAll.1 acked_publishAll.2
  | routed g d h₁ hr hd _ _ =>
    have htidy := (Deeds.tidy (ha.routed hp hr) hd).1
    have hsame : h₁.broker = h.broker := by cases hr <;> rfl
    exact of_eq (htidy.acked.trans (congrArg _ hsame)) (htidy.nacked.trans (congrArg _ hsame))
  | attached g c _ _ _ _ htidy _ _ _ _ | withheld g c _ _ htidy _ _ _ _ _ =>
    exact of_eq htidy.acked htidy.nacked
  | concluded c x result outcome broker ledger ends _ _ hsettling hmid hd _ =>
    have htidy := (Deeds.tidy hmid hd).1
    have hbroker : (h.answered c x outcome broker ledger).broker = broker := rfl
    rw [htidy.acked, htidy.nacked, hbroker]
    cases hsettling with
    | acked b' l' _ _ _ hacked hnacked _ =>
      exact ⟨fun t ht => hacked ▸ List.mem_append_left _ ht, fun t ht => hnacked ▸ ht⟩
    | lost => exact of_eq rfl rfl
    | rejected failure b' l' _ _ _ _ hacked hnacked _ =>
      exact ⟨fun t ht => hacked ▸ ht, fun t ht => (hnacked t).2 (.inl ht)⟩
    | dropped failure l' _ _ => exact of_eq rfl rfl
    | deferred failure l' _ _ => exact of_eq rfl rfl
  | passed g hpass hl =>
    obtain ⟨before, after, _, hpassed⟩ := hpass.passed ha hi hp hl
    exact ⟨fun t ht => hpassed.acked ▸ ht, hpassed.nacked⟩

theorem Run.settled_of_le (hr : Run cfg (fun a => a.isForeign = false) s) (hle : m ≤ n) :
    (∀ t ∈ (s m).broker.acked, t ∈ (s n).broker.acked) ∧
      ∀ t ∈ (s m).broker.nacked, t ∈ (s n).broker.nacked := by
  induction n, hle using Nat.le_induction with
  | base => exact ⟨fun _ ht => ht, fun _ ht => ht⟩
  | succ n _ ih =>
    obtain ⟨hacked, hnacked⟩ :=
      (hr.entry n).settled (hr.attended n) (hr.settled n) (hr.paired n)
    exact ⟨fun t ht => hacked t (ih.1 t ht), fun t ht => hnacked t (ih.2 t ht)⟩

/-! Passes. -/

/-- It is the front that runs a ledger pass. -/
theorem Passes.live (hpass : h.Passes cfg g h') (hi : h.Settled) (hf : h.failure = none) :
    h.Live g := by
  refine hi.live_front (fun f hl => ?_) hf
  cases hpass with
  | abandoned x hx hadmitted _ =>
    rcases hadmitted with hst | ⟨p, d, hst, hdone⟩
    · exact hl.lineup.eq_front hx (by simp [hst]) (by simp [hst]) (by simp [hst])
    · refine hl.front_of_waiting hx hst ?_
      rw [hdone]
      nofun
  | left h₁ x deadline c hh₁ hx hst _ _ _ =>
    have hlineup : h₁.generations[g]? = some x ∧ h₁.Live f := by
      rcases hh₁ with rfl | rfl
      · exact ⟨hx, hl⟩
      · exact ⟨hx, hl.expireAll⟩
    exact hlineup.2.lineup.eq_front hx (by simp [hst]) (by simp [hst]) (by simp [hst])
  | released c hheld hsink =>
    have hs : h.broker.Still h.broker.release.1 := ⟨rfl, rfl, rfl, rfl, rfl, fun _ _ hmem => hmem⟩
    exact hsink.symm.trans (hl.released hheld hs rfl rfl rfl).1

theorem Run.passed (hr : Run cfg (fun a => a.isForeign = false) s)
    (hpass : (s n).Passes cfg g (s (n + 1))) :
    ∃ before after, (s n).Recorded g before after ∧ (s n).Passed g before after (s (n + 1)) :=
  hpass.passed (hr.attended n) (hr.settled n) (hr.paired n) (hpass.live (hr.settled n))

theorem Run.bides (hr : Run cfg (fun a => a.isForeign = false) s) (n : Nat)
    (hnone : ∀ g, ¬ (s n).Passes cfg g (s (n + 1))) : (s n).Bides (s (n + 1)) := by
  rcases (hr.entry n).bides (hr.attended n) (hr.paired n) with ⟨g, hpass⟩ | hb
  · exact (hnone g hpass).elim
  · exact hb

end Harness
end Intercept
