import Intercept.Proofs.Ledger.Channel

/-! A ledger beside a strict channel. Whatever its callers do within their rules, the channel takes
every reject, and after a teardown only the tags being processed are unsettled. -/
namespace Intercept

/-- What is done to a ledger. -/
inductive LedgerOp where
  | observe (tag : Nat)
  | start (tag : Nat)
  | finish (tag : Nat) (settlement : Settlement)
  | teardown
  deriving DecidableEq, Repr

/-- A ledger beside the channel whose tags it keeps account of. -/
structure Bookkeeping where
  ledger : Ledger := {}
  channel : Channel := {}
  /-- The tags that were ever claimed. -/
  claimed : TagSet := ∅

namespace Bookkeeping

/-- The rules that callers of a ledger keep: tags are observed one after the other, a claim takes a
fresh tag that came after the latest teardown, what ends is being processed, and a reject of its own
is for a tag that a teardown has passed over. -/
def Allows (s : Bookkeeping) : LedgerOp → Prop
  | .observe tag => tag = s.ledger.lastObserved + 1
  | .start tag =>
    s.ledger.previouslyNackedThrough < tag ∧ tag ≤ s.ledger.lastObserved ∧ tag ∉ s.claimed
  | .finish tag settlement =>
    tag ∈ s.ledger.processing ∧
      (settlement = .alreadyNacked → tag ≤ s.ledger.previouslyNackedThrough)
  | .teardown => True

instance (s : Bookkeeping) : ∀ op, Decidable (s.Allows op)
  | .observe _ => inferInstanceAs (Decidable (_ = _))
  | .start _ => inferInstanceAs (Decidable (_ ∧ _ ∧ _))
  | .finish _ _ => inferInstanceAs (Decidable (_ ∧ (_ → _)))
  | .teardown => inferInstanceAs (Decidable True)

/-- One operation, with what it settles on the channel; there is no result if the channel refuses
it. -/
def perform? (s : Bookkeeping) : LedgerOp → Option Bookkeeping
  | .observe tag =>
    some { s with ledger := s.ledger.observe tag, channel := { s.channel with delivered := tag } }
  | .start tag =>
    some { s with ledger := s.ledger.startProcessing tag, claimed := s.claimed.insert tag }
  | .finish tag settlement => do
    let ledger ← (s.ledger.endProcessing tag settlement).toOption
    let channel ←
      if settlement = .shouldNack then some s.channel
      else s.channel.settle? ledger.processing tag
    some { s with ledger, channel }
  | .teardown => do
    let (plan, ledger) := s.ledger.teardown
    let channel ← s.channel.rejectAll? ledger.processing plan.rejects
    some { s with ledger, channel }

/-- What operations within the rules lead to. -/
inductive Reachable : Bookkeeping → Prop
  | initial : Reachable {}
  | step {s s' : Bookkeeping} (op : LedgerOp) :
    Reachable s → s.Allows op → s.perform? op = some s' → Reachable s'

variable {s s' : Bookkeeping} {op : LedgerOp} {tag t : Nat} {settlement : Settlement}

/-- The ledger tracks what its channel has not settled, and remembers only claimed tags. -/
structure Balanced (s : Bookkeeping) : Prop where
  sound : s.ledger.Sound
  tracks : s.ledger.Tracks s.channel.unsettled
  delivered : s.channel.delivered = s.ledger.lastObserved
  settled_delivered : ∀ t ∈ s.channel.settled, 0 < t ∧ t ≤ s.channel.delivered
  within : s.ledger.Within {t | t ∈ s.claimed}

theorem balanced_initial : ({} : Bookkeeping).Balanced where
  sound := Ledger.sound_initial
  tracks := by
    have hnone : ({} : Channel).unsettled = ∅ := by
      ext t
      simp only [Channel.unsettled, Set.mem_ofPred_eq, Set.mem_empty_iff_false, iff_false]
      omega
    exact hnone ▸ Ledger.tracks_initial
  delivered := rfl
  settled_delivered := by simp
  within := Ledger.within_initial

theorem Balanced.observe (h : s.Balanced) (ha : s.Allows (.observe tag)) :
    ∃ s', s.perform? (.observe tag) = some s' ∧ s'.Balanced := by
  obtain rfl : tag = s.ledger.lastObserved + 1 := ha
  have hd := h.delivered
  have hun : ({ s.channel with delivered := s.ledger.lastObserved + 1 } : Channel).unsettled =
      insert (s.ledger.lastObserved + 1) s.channel.unsettled := by
    ext t
    have hsettled := h.settled_delivered t
    simp only [Channel.unsettled, Set.mem_ofPred_eq, Set.mem_insert_iff]
    constructor
    · rintro ⟨hpos, hle, hnot⟩
      by_cases hnew : t = s.ledger.lastObserved + 1
      · exact .inl hnew
      · exact .inr ⟨hpos, by omega, hnot⟩
    · rintro (rfl | ⟨hpos, hle, hnot⟩)
      · refine ⟨by omega, Nat.le_refl _, fun hmem => ?_⟩
        have := hsettled hmem
        omega
      · exact ⟨hpos, by omega, hnot⟩
  refine ⟨_, rfl, ⟨h.sound.observe, ?_, ?_, ?_, ⟨h.within.processing, h.within.acked,
    h.within.shouldNack⟩⟩⟩
  · exact hun ▸ h.tracks.observe h.sound
  · simp [Ledger.observe]
  · intro t ht
    obtain ⟨hpos, hle⟩ := h.settled_delivered t ht
    exact ⟨hpos, Nat.le_succ_of_le (hd ▸ hle)⟩

theorem Balanced.start (h : s.Balanced) (ha : s.Allows (.start tag)) :
    ∃ s', s.perform? (.start tag) = some s' ∧ s'.Balanced := by
  obtain ⟨hlt, hle, hfresh⟩ := ha
  obtain ⟨hdue, hs⟩ := h.within.due hlt hle hfresh
  refine ⟨_, rfl, ⟨h.sound.startProcessing hdue hs, h.tracks.startProcessing hdue, h.delivered,
    h.settled_delivered, h.within.startProcessing ?_ ?_⟩⟩
  · exact fun t ht => TagSet.mem_insert.2 (.inr ht)
  · exact TagSet.mem_insert.2 (.inl rfl)

theorem Balanced.finish (h : s.Balanced) (ha : s.Allows (.finish tag settlement)) :
    ∃ s', s.perform? (.finish tag settlement) = some s' ∧ s'.Balanced := by
  obtain ⟨htag, hle⟩ := ha
  obtain ⟨l', hl', he⟩ := Ledger.endProcessing_of_mem htag settlement
  have hlast : s.channel.delivered = l'.lastObserved := h.delivered.trans he.lastObserved.symm
  by_cases hs : settlement = .shouldNack
  · subst hs
    have hperform : s.perform? (.finish tag .shouldNack) = some { s with ledger := l' } := by
      simp [perform?, hl', Except.toOption]
    exact ⟨_, hperform, ⟨h.sound.ended he, h.tracks.ended_shouldNack h.sound he, hlast,
      h.settled_delivered, h.within.ended he⟩⟩
  · have hnow : settlement = .acked ∨
        settlement = .alreadyNacked ∧ tag ≤ s.ledger.previouslyNackedThrough := by
      cases settlement with
      | acked => exact .inl rfl
      | shouldNack => exact (hs rfl).elim
      | alreadyNacked => exact .inr ⟨rfl, hle rfl⟩
    have hun : tag ∈ s.channel.unsettled := (h.tracks tag).2 (.inl htag)
    have hfree : tag ∉ l'.processing := fun hmem => ((he.processing tag).1 hmem).2 rfl
    have hsettle := Channel.settle?_of_unsettled hun hfree
    have hperform : s.perform? (.finish tag settlement) = some { s with
        ledger := l', channel := { s.channel with settled := s.channel.settled.insert tag } } := by
      simp [perform?, hl', Except.toOption, hs, hsettle]
    have hleft : ({ s.channel with settled := s.channel.settled.insert tag } : Channel).unsettled =
        {u ∈ s.channel.unsettled | u ≠ tag} := by
      ext u
      simp only [Channel.unsettled, Set.mem_ofPred_eq, TagSet.mem_insert, not_or]
      tauto
    refine ⟨_, hperform, ⟨h.sound.ended he, ?_, hlast, ?_, h.within.ended he⟩⟩
    · exact hleft ▸ h.tracks.ended_settled h.sound hnow he
    · intro u hu
      obtain rfl | hu := TagSet.mem_insert.1 hu
      · exact ⟨hun.1, hun.2.1⟩
      · exact h.settled_delivered u hu

/-- A teardown leaves exactly the tags that are being processed. -/
theorem Balanced.teardown (h : s.Balanced) :
    ∃ s', s.perform? .teardown = some s' ∧ s'.Balanced ∧
      ∀ t, t ∈ s'.channel.settled ↔
        0 < t ∧ t ≤ s'.ledger.lastObserved ∧ t ∉ s'.ledger.processing := by
  obtain ⟨c, hc, hdelivered, hsettled⟩ := Channel.rejectAll?_of_accepted
    (h.tracks.accepted h.sound) (fun r hr t ht => h.sound.not_covered hr ht)
  have hperform : s.perform? .teardown =
      some { s with ledger := s.ledger.teardown.2, channel := c } := by
    change (s.channel.rejectAll? s.ledger.processing s.ledger.plan.rejects).bind _ = _
    rw [hc]
    rfl
  have hleft (t : Nat) : t ∈ c.unsettled ↔ t ∈ s.ledger.processing := by
    rw [← h.tracks.left_by_plan h.sound]
    simp only [Channel.unsettled, Set.mem_ofPred_eq, hdelivered, hsettled, not_or, not_and,
      not_exists, Bool.not_eq_true]
    constructor
    · rintro ⟨hpos, hle, hnot, hfree⟩
      exact ⟨⟨hpos, hle, hnot⟩, hfree hpos⟩
    · rintro ⟨⟨hpos, hle, hnot⟩, hfree⟩
      exact ⟨hpos, hle, hnot, fun _ => hfree⟩
  have hbounds : ∀ t ∈ c.settled, 0 < t ∧ t ≤ c.delivered := by
    intro t ht
    rw [hdelivered]
    obtain hmem | ⟨hpos, r, hr, hcov⟩ := (hsettled t).1 ht
    · exact h.settled_delivered t hmem
    · have hle : r.1 ≤ s.ledger.lastObserved := (h.sound.due_reject hr).2.1
      exact ⟨hpos, h.delivered ▸ (Broker.le_of_covers hcov).trans hle⟩
  have hun : c.unsettled = {t | t ∈ s.ledger.processing} := Set.ext hleft
  have hlast : c.delivered = s.ledger.lastObserved := hdelivered.trans h.delivered
  refine ⟨_, hperform, ⟨h.sound.teardown, hun ▸ Ledger.tracks_teardown, hlast, hbounds,
    h.within.teardown⟩, fun t => ?_⟩
  change t ∈ c.settled ↔ 0 < t ∧ t ≤ s.ledger.lastObserved ∧ t ∉ s.ledger.processing
  rw [← hleft, ← hlast]
  constructor
  · intro ht
    exact ⟨(hbounds t ht).1, (hbounds t ht).2, fun hmem => hmem.2.2 ht⟩
  · rintro ⟨hpos, hle, hnot⟩
    by_contra ht
    exact hnot ⟨hpos, hle, ht⟩

/-- An operation within the rules is taken. -/
theorem Balanced.perform? (h : s.Balanced) (ha : s.Allows op) :
    ∃ s', s.perform? op = some s' ∧ s'.Balanced := by
  cases op with
  | observe tag => exact h.observe ha
  | start tag => exact h.start ha
  | finish tag settlement => exact h.finish ha
  | teardown =>
    obtain ⟨s', hs', hbalanced, _⟩ := h.teardown
    exact ⟨s', hs', hbalanced⟩

theorem balanced_reachable (h : s.Reachable) : s.Balanced := by
  induction h with
  | initial => exact balanced_initial
  | step op _ ha hs ih =>
    obtain ⟨s', hs', hbalanced⟩ := ih.perform? ha
    rw [hs] at hs'
    exact Option.some.inj hs' ▸ hbalanced

/-- Every operation within the rules is taken. A teardown finds each of its rejects unsettled as its
turn comes, none reaches a tag that is being processed, and afterwards those are the only tags that
are not settled. -/
theorem teardowns_settle_once (h : s.Reachable) :
    (∀ op, s.Allows op → ∃ s', s.perform? op = some s') ∧
    (∀ before r after, s.ledger.plan.rejects = before ++ r :: after →
      ∃ c, s.channel.rejectAll? s.ledger.processing before = some c ∧ r.1 ∈ c.unsettled ∧
        ∀ t ∈ s.ledger.processing, Broker.covers r.1 r.2 t = false) ∧
    (∀ s', s.perform? .teardown = some s' → ∀ t, t ∈ s'.channel.settled ↔
      0 < t ∧ t ≤ s'.ledger.lastObserved ∧ t ∉ s'.ledger.processing) := by
  have hs := balanced_reachable h
  refine ⟨?_, ?_, ?_⟩
  · intro op ha
    obtain ⟨s', hs', _⟩ := hs.perform? ha
    exact ⟨s', hs'⟩
  · intro before r after hplan
    obtain ⟨c', hc', _⟩ := Channel.rejectAll?_of_accepted (hs.tracks.accepted hs.sound)
      (fun r hr t ht => hs.sound.not_covered hr ht)
    rw [hplan, Channel.rejectAll?_append] at hc'
    obtain ⟨c, hc, hrest⟩ := Option.bind_eq_some_iff.1 hc'
    obtain ⟨c₁, hr, _⟩ := Option.bind_eq_some_iff.1 hrest
    exact ⟨c, hc, Channel.unsettled_of_reject? hr⟩
  · intro s' hs'
    obtain ⟨s'', hs'', _, hsettled⟩ := hs.teardown
    rw [hs'] at hs''
    exact Option.some.inj hs'' ▸ hsettled

/-- Two claims that failed after a teardown, below and above one that goes on. -/
def lateFailures : Bookkeeping where
  ledger := {
    processing := { toList := [3] }
    shouldNack := { toList := [1, 4] }
    lastObserved := 5
    previouslyNackedThrough := 4 }
  channel := { delivered := 5, settled := { toList := [2] } }
  claimed := { toList := [1, 3, 4] }

theorem lateFailures_reachable : lateFailures.Reachable := by
  have hdelivered := (((Reachable.initial.step (.observe 1) rfl rfl).step (.observe 2) rfl rfl).step
    (.observe 3) rfl rfl).step (.observe 4) rfl rfl
  have hclaimed := ((hdelivered.step (.start 1) (by decide) rfl).step
    (.start 3) (by decide) rfl).step (.start 4) (by decide) rfl
  have hpassed := (hclaimed.step .teardown trivial rfl).step (.observe 5) rfl rfl
  exact (hpassed.step (.finish 1 .shouldNack) (by decide) rfl).step
    (.finish 4 .shouldNack) (by decide) rfl

theorem lateFailures_settled_once :
    lateFailures.ledger.plan.rejects = [(1, true), (4, false), (5, false)] ∧
    (∃ c, lateFailures.channel.rejectAll? { toList := [3] } [(1, true)] = some c ∧
      4 ∈ c.unsettled) ∧
    ∃ s', lateFailures.perform? .teardown = some s' ∧ 3 ∉ s'.channel.settled := by
  have hplan : lateFailures.ledger.plan.rejects = [(1, true), (4, false), (5, false)] := by decide
  obtain ⟨hall, hrejects, hsettled⟩ := teardowns_settle_once lateFailures_reachable
  obtain ⟨c, hc, hfour, _⟩ := hrejects [(1, true)] (4, false) [(5, false)] hplan
  obtain ⟨s', hs'⟩ := hall .teardown trivial
  have hthree : 3 ∈ s'.ledger.processing := by
    cases hs'
    decide
  exact ⟨hplan, ⟨c, hc, hfour⟩, s', hs', fun h => ((hsettled s' hs' 3).1 h).2.2 hthree⟩

end Bookkeeping
end Intercept
