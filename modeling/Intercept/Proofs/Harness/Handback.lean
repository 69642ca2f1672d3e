import Intercept.Proofs.Harness.Business
import Intercept.Proofs.Harness.Client
import Intercept.Proofs.Harness.Matching
import Intercept.Proofs.Harness.Unacked

/-! A ledger pass hands messages back in the order in which they were delivered, however its plan
mixes a batch with single rejects. -/
namespace Intercept

/-- What lies below a tag comes before what lies above it. -/
theorem filter_append_filter {l : List (Nat × Body)} {p q : Nat × Body → Bool} {t : Nat}
    (hl : l.Pairwise fun d e => d.1 < e.1) (hp : ∀ d, p d = true → d.1 ≤ t)
    (hq : ∀ d, q d = true → t < d.1) :
    l.filter p ++ l.filter q = l.filter fun d => p d || q d := by
  induction l with
  | nil => rfl
  | cons d rest ih =>
    obtain ⟨hlow, hrest⟩ := List.pairwise_cons.1 hl
    cases hpd : p d with
    | true =>
      have hqd : q d = false := by
        apply Bool.eq_false_iff.2
        intro hqd
        have := hp d hpd
        have := hq d hqd
        omega
      simp [hpd, hqd, ih hrest]
    | false =>
      cases hqd : q d with
      | false => simp [hpd, hqd, ih hrest]
      | true =>
        -- All that is left lies above the tag.
        have hnone : rest.filter p = [] := by
          rw [List.filter_eq_nil_iff]
          intro e he hpe
          have := hlow e he
          have := hp e hpe
          have := hq d hqd
          omega
        have hrest' := ih hrest
        rw [hnone, List.nil_append] at hrest'
        simp [hpd, hqd, hnone, hrest']

namespace Broker
variable {κ : Type} {b b' b'' : Broker κ} {r : Nat × Bool} {rejects : List (Nat × Bool)}

/-! Deliveries ascend. -/

/-- What is not settled lies in the order of delivery. -/
structure Ascends (b : Broker κ) : Prop where
  ascending : b.unsettled.Pairwise fun d e => d.1 < e.1
  delivered : ∀ d ∈ b.unsettled, d.1 ≤ b.lastTag

theorem ascends_initial : ({} : Broker κ).Ascends := ⟨.nil, nofun⟩

theorem Ascends.sublist (ha : b.Ascends) (hs : b'.unsettled.Sublist b.unsettled)
    (hlast : b'.lastTag = b.lastTag) : b'.Ascends where
  ascending := ha.ascending.sublist hs
  delivered := fun d hd => hlast ▸ ha.delivered d (hs.subset hd)

theorem Ascends.publish {body : Body} (ha : b.Ascends) : (b.publish body).1.Ascends := by
  rw [Broker.publish]
  split
  · exact ha.sublist (.refl _) rfl
  · constructor
    · refine List.pairwise_append.2 ⟨ha.ascending, List.pairwise_singleton .., ?_⟩
      intro d hd e he
      rw [List.mem_singleton.1 he]
      exact Nat.lt_succ_of_le (ha.delivered d hd)
    · intro d hd
      rcases List.mem_append.1 hd with hd | hd
      · exact Nat.le_succ_of_le (ha.delivered d hd)
      · rw [List.mem_singleton.1 hd]

theorem Called.ascends (hc : b.Called b') (ha : b.Ascends) : b'.Ascends := by
  cases hc with
  | publish body => exact ha.publish
  | start tag priority sink =>
    rw [Broker.start, onOpen]
    split <;> exact ha.sublist (.refl _) rfl
  | ack tag =>
    rw [Broker.ack, onOpen]
    split
    · exact ha
    · split
      · exact ha.sublist List.filter_sublist rfl
      · exact ha.sublist (.refl _) rfl
  | nack tag multiple =>
    rw [Broker.nack, onOpen]
    split
    · exact ha
    · split
      · refine ha.sublist ?_ rfl
        rw [List.partition_eq_filter_filter]
        exact List.filter_sublist
      · exact ha.sublist (.refl _) rfl
  | cancel tag =>
    rw [Broker.cancel, onOpen]
    split
    · exact ha
    · split
      · exact ha.sublist (.refl _) rfl
      · simp only
        split <;> exact ha.sublist (.refl _) rfl
  | confirmCancel tag | hold | release | consumeBacklog count => exact ha.sublist (.refl _) rfl
  | dispose =>
    rw [Broker.dispose]
    split <;> exact ha.sublist (.refl _) rfl

theorem Calls.ascends (hc : b.Calls b') (ha : b.Ascends) : b'.Ascends := by
  induction hc with
  | refl => exact ha
  | tail _ hone ih => exact hone.ascends ih

/-! Rejects. -/

/-- The deliveries that rejects cover. -/
def covered (b : Broker κ) (rejects : List (Nat × Bool)) : List (Nat × Body) :=
  b.unsettled.filter fun d => rejects.any fun r => covers r.1 r.2 d.1

/-- What rejects cover has come back. -/
structure Returns (rejects : List (Nat × Bool)) (b b' : Broker κ) : Prop where
  unsettled : b'.unsettled = b.unsettled.filter fun d => !rejects.any fun r => covers r.1 r.2 d.1
  nacked : b'.nacked = b.nacked ++ (b.covered rejects).map (·.1)
  backlog : b'.backlog = b.backlog ++ (b.covered rejects).map (·.2)

theorem returns_refl : Returns [] b b := by
  constructor <;> simp [covered]

theorem Returns.dispose (hr : Returns rejects b b') : Returns rejects b b'.dispose := by
  rw [Broker.dispose]
  split
  · exact hr
  · exact ⟨hr.unsettled, hr.nacked, hr.backlog⟩

/-- A broker takes a reject, or what it holds stays the same. -/
theorem returns_nack (b : Broker κ) (tag : Nat) (multiple : Bool) :
    (b.nack tag multiple).2 = .ok () ∧ Returns [(tag, multiple)] b (b.nack tag multiple).1 ∨
      (∃ e, (b.nack tag multiple).2 = .error e) ∧ Returns [] b (b.nack tag multiple).1 := by
  by_cases hd : b.disposed = true
  · rw [nack_of_disposed hd]
    exact .inr ⟨⟨_, rfl⟩, returns_refl⟩
  · have hopen : b.disposed = false := Bool.eq_false_iff.2 hd
    by_cases ht : tag ∈ b.tags
    · rw [nack_eq hopen ht]
      refine .inl ⟨rfl, ?_⟩
      constructor <;> simp [covered]
    · have hun : (b.record (.nack tag multiple)).isUnsettled tag = false :=
        Bool.eq_false_iff.2 fun hun => ht (isUnsettled_iff.1 hun)
      rw [nack, onOpen, if_neg hd, if_neg (Bool.eq_false_iff.1 hun)]
      exact .inr ⟨⟨_, rfl⟩, returns_refl.unsettled, returns_refl.nacked, returns_refl.backlog⟩

/-- Rejects that go by ascending tag bring deliveries back by ascending tag. -/
theorem Returns.cons (ha : b.Ascends) (hlater : ∀ s ∈ rejects, r.1 < s.1 ∧ s.2 = false)
    (hr : Returns [r] b b') (hr' : Returns rejects b' b'') : Returns (r :: rejects) b b'' := by
  have habove : ∀ d : Nat × Body, rejects.any (fun s => covers s.1 s.2 d.1) = true → r.1 < d.1 := by
    intro d hd
    obtain ⟨s, hs, hcovers⟩ := List.any_eq_true.1 hd
    obtain ⟨hlt, hsingle⟩ := hlater s hs
    rw [hsingle] at hcovers
    exact (eq_of_beq hcovers).symm ▸ hlt
  have hkept : b'.covered rejects = b.covered rejects := by
    rw [covered, hr.unsettled, List.filter_filter, covered]
    apply List.filter_congr
    intro d _
    cases hd : rejects.any (fun s => covers s.1 s.2 d.1) with
    | false => rfl
    | true =>
      have hfree : covers r.1 r.2 d.1 = false := by
        apply Bool.eq_false_iff.2
        intro hcovers
        have := le_of_covers hcovers
        have := habove d hd
        omega
      simp [hfree]
  have hsplit : b.covered [r] ++ b.covered rejects = b.covered (r :: rejects) := by
    have hbelow : ∀ d : Nat × Body, [r].any (fun s => covers s.1 s.2 d.1) = true → d.1 ≤ r.1 := by
      intro d hd
      exact le_of_covers (by simpa using hd)
    rw [covered, covered, filter_append_filter ha.ascending hbelow habove, covered]
    simp
  constructor
  · rw [hr'.unsettled, hr.unsettled, List.filter_filter]
    apply List.filter_congr
    intro d _
    simp [Bool.and_comm]
  · rw [hr'.nacked, hr.nacked, hkept, List.append_assoc, ← List.map_append, hsplit]
  · rw [hr'.backlog, hr.backlog, hkept, List.append_assoc, ← List.map_append, hsplit]

end Broker

namespace Harness
variable {M : Type} {cfg : Setup M} {h h' : Harness M} {s : Nat → Harness M} {g : Nat}
  {e : HarnessError} {b : Broker Nat} {taken rejects : List (Nat × Bool)}

theorem ReachableAlone.ascends (hr : ReachableAlone cfg h) : h.broker.Ascends :=
  (Reaches.calls hr).ascends Broker.ascends_initial

theorem returns_fail (hr : Broker.Returns taken b h.broker) :
    Broker.Returns taken b (h.fail e).broker := by
  by_cases hf : h.failure = none
  · rw [fail_eq hf]
    exact hr.dispose
  · rw [fail_of_failure hf]
    exact hr

/-- Rejects are issued up to the first that fails. -/
theorem returns_nackAll (cfg : Setup M) (h : Harness M) (ha : h.broker.Ascends)
    (hp : rejects.Pairwise fun r s => r.1 < s.1 ∧ s.2 = false) :
    ∃ taken, taken <+: rejects ∧ ((h.nackAll cfg rejects).2 = .ok () → taken = rejects) ∧
      Broker.Returns taken h.broker (h.nackAll cfg rejects).1.broker := by
  induction rejects generalizing h with
  | nil => exact ⟨[], List.prefix_refl _, fun _ => rfl, Broker.returns_refl⟩
  | cons r rest ih =>
    obtain ⟨tag, multiple⟩ := r
    obtain ⟨hlater, hrest⟩ := List.pairwise_cons.1 hp
    rw [nackAll, nack]
    cases cfg.connection.nack tag with
    | some e =>
      refine ⟨[], List.nil_prefix, ?_, Broker.returns_refl⟩
      intro hok
      cases hok
    | none =>
      have hb := h.broker.returns_nack tag multiple
      have hascends := (Broker.Called.nack tag multiple).ascends ha
      cases hn : h.broker.nack tag multiple with
      | mk broker result =>
        rw [hn] at hb hascends
        rcases hb with ⟨rfl, hfirst⟩ | ⟨⟨e, rfl⟩, hnone⟩
        · obtain ⟨taken, hissued, hall, hothers⟩ := ih { h with broker } hascends hrest
          refine ⟨(tag, multiple) :: taken, List.prefix_cons_inj _ |>.2 hissued, ?_, ?_⟩
          · intro hok
            rw [hall hok]
          · exact hfirst.cons ha (fun s hs => hlater s (hissued.subset hs)) hothers
        · refine ⟨[], List.nil_prefix, ?_, hnone⟩
          intro hok
          cases hok

theorem returns_teardown (cfg : Setup M) (h : Harness M) (g : Nat) (ha : h.broker.Ascends)
    (hl : h.ledger.Sound) : ∃ taken, taken <+: h.ledger.plan.rejects ∧
      ((h.teardown cfg g).failure = none → taken = h.ledger.plan.rejects) ∧
      Broker.Returns taken h.broker (h.teardown cfg g).broker := by
  cases hc : (h.life g).setComplete ((h.generations[g]?.map (·.consumer)).getD "") with
  | mk life result =>
    cases result with
    | error e =>
      rw [teardown, hc]
      exact ⟨[], List.nil_prefix, fun hf => (failure_fail _ _ hf).elim,
        returns_fail (h := h.changeLife g fun _ => life) Broker.returns_refl⟩
    | ok =>
      obtain ⟨broker, result, hrun, _, hcases⟩ := teardown_cases cfg hc
      obtain ⟨taken, hissued, hall, hreturns⟩ := returns_nackAll cfg
        { h.changeLife g fun _ => life with ledger := h.ledger.teardown.2 } ha hl.rejects_ascend
      rw [hrun] at hall hreturns
      rcases hcases with ⟨rfl, heq⟩ | ⟨e, rfl, heq⟩
      · rw [heq]
        exact ⟨taken, hissued, fun _ => hall rfl, hreturns⟩
      · rw [heq]
        exact ⟨taken, hissued, fun hf => (failure_fail _ _ hf).elim, returns_fail hreturns⟩

/-- Whichever way a generation leaves, what its pass hands back is covered by the rejects of its
plan, up to the first that fails. -/
theorem Passes.returns (hpass : h.Passes cfg g h') (ha : h.broker.Ascends) (hd : h.Attended cfg)
    (hl : h.ledger.Sound) : ∃ taken, taken <+: h.ledger.plan.rejects ∧
      (h'.failure = none → taken = h.ledger.plan.rejects) ∧
      Broker.Returns taken h.broker h'.broker := by
  cases hpass with
  | abandoned x _ _ _ => exact returns_teardown cfg (h.enter g .ended) g ha hl
  | left h₁ x deadline c hh₁ _ _ _ _ _ =>
    obtain ⟨hdeeds, hbroker, _⟩ := leaving hd hh₁
    have hledger : h₁.ledger = h.ledger := (hdeeds.tidy hd).1.ledger
    obtain ⟨taken, hissued, hall, hr⟩ := returns_teardown cfg
      (h₁.cancelled g { h.broker.record (.cancel c.tag) with consumers := [] }) c.sink
      ⟨ha.ascending, ha.delivered⟩ (hledger ▸ hl)
    have hplan : taken <+: h.ledger.plan.rejects := hledger ▸ hissued
    exact ⟨taken, hplan, fun hf => (hall hf).trans (congrArg (·.plan.rejects) hledger),
      hr.unsettled, hr.nacked, hr.backlog⟩
  | released c _ _ =>
    obtain ⟨taken, hissued, hall, hr⟩ := returns_teardown cfg
      { h with broker := h.broker.release.1 } c.sink ⟨ha.ascending, ha.delivered⟩ hl
    exact ⟨taken, hissued, hall, hr.unsettled, hr.nacked, hr.backlog⟩

/-- A ledger pass that does not fail hands back all that is not being processed. -/
theorem Live.covered_plan (hl : h.Live g) : h.broker.covered h.ledger.plan.rejects =
    h.broker.unsettled.filter fun d => d.1 ∉ h.ledger.processing := by
  apply List.filter_congr
  intro d hd
  have htags : d.1 ∈ h.broker.tags := List.mem_map_of_mem hd
  have hleft := hl.active.tracks.left_by_plan (t := d.1) hl.active.sound
  rw [Bool.eq_iff_iff, List.any_eq_true, decide_eq_true_iff, ← hleft]
  constructor
  · rintro ⟨r, hr, hcovers⟩ ⟨_, hfree⟩
    rw [hfree r hr] at hcovers
    cases hcovers
  · intro hnot
    by_contra hnone
    refine hnot ⟨htags, fun r hr => Bool.eq_false_iff.2 fun hcovers => hnone ⟨r, hr, hcovers⟩⟩

/-- A generation is done with its messages once its ledger pass has run and no reject has failed.
However the pass rejects, in a batch or one by one, and whichever tags in between are settled or still
being processed, what it rejects comes back in the order of delivery: the tags ascend, the bodies
follow in the same order, and no tag comes back twice. What it issues are the rejects of its plan, up
to the first that fails. If none fails, all comes back that is not being processed, and nothing else. -/
theorem passes_hand_back_in_order (hr : Run cfg (fun a => a.isForeign = false) s) (n g : Nat) :
    (¬ (s n).Completed g → (s (n + 1)).Completed g → (s n).Passes cfg g (s (n + 1))) ∧
    ((s n).Passes cfg g (s (n + 1)) → ∃ taken, taken <+: (s n).ledger.plan.rejects ∧
      Broker.Returns taken (s n).broker (s (n + 1)).broker ∧
      (((s n).broker.covered taken).map (·.1)).Pairwise (· < ·) ∧
      (s (n + 1)).broker.nacked.Nodup ∧
      ((s (n + 1)).failure = none → taken = (s n).ledger.plan.rejects ∧
        (s n).broker.covered taken =
          (s n).broker.unsettled.filter fun d => d.1 ∉ (s n).ledger.processing)) := by
  refine ⟨fun hopen hdone => ?_, fun hpass => ?_⟩
  · obtain ⟨k, hnk, hkn, hpass⟩ := hr.pass_between (Nat.le_succ n) hopen hdone
    obtain rfl : k = n := by omega
    exact hpass
  · have hi := hr.settled n
    have ha := (hr.alone n).ascends
    obtain ⟨taken, hissued, hall, hreturns⟩ := hpass.returns ha (hr.attended n) hi.books.sound
    have hsub : ((s n).broker.covered taken).Sublist (s n).broker.unsettled := List.filter_sublist
    refine ⟨taken, hissued, hreturns, ?_, ?_, fun hf => ⟨hall hf, ?_⟩⟩
    · exact List.pairwise_map.2 (ha.ascending.sublist hsub)
    · have hnodup := hi.books.balanced.nodup
      rw [List.append_assoc] at hnodup
      rw [hreturns.nacked]
      exact (List.nodup_append.1 hnodup).2.1.sublist ((hsub.map _).append_left _)
    · obtain ⟨_, _, _, hpassed⟩ := hr.passed hpass
      rw [hall hf]
      exact (hpass.live hi (hpassed.unfailed hf).1).covered_plan

/-- A callback fails after the pass of its generation. Of four further deliveries two are still being
processed as the next pass runs. -/
def returnTrip : List (Move Bool) :=
  [.act (.call "a short one" fun short => .holds short), .step (.wait 0), .step (.generation 0),
    .act (.publish [0]), .act (.publish [1, 1]), .step (.generation 0), .step (.generation 0),
    .step (.claim 0), .step (.callback 0),
    .act (.call "another" fun short => .holds short), .step (.wait 1),
    .act (.call "a third" fun short => .holds short), .step (.wait 2), .step (.generation 1),
    .step (.generation 1), .step (.claim 0), .act (.publishAll [[], [4], [5, 5], [6]]),
    .step (.generation 1), .step (.generation 1), .step (.generation 1), .step (.generation 1),
    .step (.generation 1)]

/-- A batch reaches over a tag that came back before, and ends below those being processed. A single
reject falls in between them. -/
theorem gaps_handed_back : ∃ s : Nat → Harness Bool,
    Run (.terse [.fail ⟨"refused", []⟩] 2) (fun a => a.isForeign = false) s ∧
    (s 21).ledger.plan.rejects = [(3, true), (5, false)] ∧
    (s 21).ledger.processing.toList = [4, 6] ∧ (s 21).broker.nacked = [2] ∧
    (s 21).Passes (.terse [.fail ⟨"refused", []⟩] 2) 1 (s 22) ∧
    (s 22).broker.nacked = [2, 1, 3, 5] ∧
    (s 22).broker.backlog = [[1, 1], [0], [], [5, 5]] ∧ (s 22).broker.nacked.Nodup := by
  have hr : Run (.terse [.fail ⟨"refused", []⟩] 2) _
      (after (.terse [.fail ⟨"refused", []⟩] 2) (initial _) returnTrip) := run_after rfl
  obtain ⟨hdone, hback⟩ := passes_hand_back_in_order hr 21 1
  have hpass := hdone nofun rfl
  obtain ⟨taken, _, hreturns, _, hnodup, hall⟩ := hback hpass
  obtain ⟨rfl, _⟩ := hall rfl
  exact ⟨_, hr, rfl, rfl, rfl, hpass, hreturns.nacked, hreturns.backlog, hnodup⟩

end Harness
end Intercept
