import Intercept.Proofs.CommandLine.Interleavings
import Intercept.Proofs.Harness.ExactlyOnce

/-! How a replay ends: whatever the order in which it goes on, its deliveries are settled alike. -/
namespace Intercept.CommandLine

namespace Replay
variable {r : Replay} {tag : Nat} {m : Json} {h : Harness Json} {o : Outcome Json}

/-- What a replay comes to whose first matched line has this tag and is this message. -/
structure Accounted (r : Replay) (tag : Nat) (m : Json) (h : Harness Json) : Prop where
  delivered : h.broker.lastTag = r.lines.length
  accepted : r.failProcessing = false →
    outcome? h = some (.ok m) ∧ h.broker.acked = [tag] ∧
      h.broker.nacked.Perm ((List.range' 1 r.lines.length).erase tag) ∧
      h.broker.backlog.length = r.lines.length - 1
  rejected : r.failProcessing = true →
    outcome? h = some (.error (.processing tag { outer := "processing rejected " ++ m.print })) ∧
      h.broker.acked = [] ∧ h.broker.nacked.Perm (List.range' 1 r.lines.length) ∧
      h.broker.backlog.length = r.lines.length
  unsettled : h.broker.unsettled = []
  violations : h.broker.violations = []
  consumers : h.broker.consumers = []
  operations : h.broker.operations.filter (!·.isSettlement) =
    [.start r.consumerTag r.settings.priority.toInt, .cancel r.consumerTag,
      .cancelConfirmed r.consumerTag]
  succeeds : (r.printed h).exitCode = 0 ↔ r.failProcessing = false

theorem verdict_of_accepted (hf : r.failProcessing = false) : r.verdict tag m = .ok m := by
  rw [verdict, result, hf]
  rfl

theorem verdict_of_rejected (hf : r.failProcessing = true) : r.verdict tag m =
    .error (.processing tag { outer := "processing rejected " ++ m.print }) := by
  rw [verdict, result, hf]
  rfl

/-- The command fails if its wait has no result. -/
theorem exitCode_printed (ho : outcome? h = some (r.verdict tag m)) :
    (r.printed h).exitCode = 0 ↔ r.failProcessing = false := by
  rw [printed, ho]
  cases hf : r.failProcessing with
  | false => simp [verdict_of_accepted hf]
  | true => simp [verdict_of_rejected hf, Output.failure]

end Replay

/-! A replay that is not done goes on. -/

namespace Listening
variable {r : Replay} {before behind : List String} {line : String} {m : Json} {l : Listening}

/-- Once all lines are published, the one that the caller waits for is still to be handed out. -/
theorem Fits.inbound_ne_nil (hf : l.Fits r []) (hfind : r.Finds before line behind m) :
    l.inbound ≠ [] := by
  intro hnone
  obtain ⟨handed, queue, hh⟩ := hf.holds
  have hqueue : queue = [] := by
    have hinbound := hh.inbound
    rw [hnone] at hinbound
    cases queue with
    | nil => rfl
    | cons x queue =>
      rw [deliveries_cons] at hinbound
      cases hinbound
  have hlines := hh.lines.symm.trans hfind.lines
  rw [hqueue, List.append_nil, List.append_nil] at hlines
  have hunmatched : r.matched? line = none := by
    apply hh.unmatched
    rw [hlines]
    exact List.mem_append_right _ (List.mem_cons_self ..)
  rw [hfind.line] at hunmatched
  cases hunmatched

end Listening

namespace Replay
variable {r : Replay} {before behind rest : List String} {line : String} {k : Nat} {m : Json}
  {h : Harness Json} {t : Task}

theorem moves_of_ready (hready : h.isReady r.setup t = true) : ∃ next, r.Moves ([], h) next := by
  obtain ⟨h', hs⟩ := Option.isSome_iff_exists.1 hready
  exact ⟨([], h'), .stepped t hs (.inl rfl)⟩

theorem moves_listening {l : Listening} (hf : l.Fits r rest)
    (hfind : r.Finds before line behind m) : ∃ next, r.Moves (rest, l.harness r) next := by
  cases hf.caller with
  | starting hs _ => exact ⟨_, .stepped (.wait 0) (Listening.step?_starting hs) (.inr rfl)⟩
  | awaited hrest hs =>
    subst hrest
    exact moves_of_ready (Listening.isReady_of_ready hf.early (.awaited hs))
  | awaiting deadline hrest hs =>
    subst hrest
    exact moves_of_ready (Listening.isReady_of_ready hf.early (.serving (hf.inbound_ne_nil hfind)))
  | registered hs =>
    cases rest with
    | nil => exact ⟨_, .awaited (Listening.act?_await hs)⟩
    | cons x rest =>
      obtain ⟨reply, ha⟩ := Listening.act?_publish hf.attached.consumers (Utf8.encode x)
      refine ⟨_, .published ?_ ha⟩
      change _ ∈ told l.stage
      rw [hs]
      exact List.mem_singleton_self _

theorem moves_matched {s : Matched} (hf : s.Fits r k m rest) (hdone : ¬ Done (s.harness r)) :
    ∃ next, r.Moves (rest, s.harness r) next := by
  cases hf.caller with
  | awaited hrest hs =>
    subst hrest
    exact moves_of_ready (Matched.isReady_of_ready (.awaited hs))
  | awaiting deadline hrest hs _ =>
    subst hrest
    cases hf.progress with
    | settled _ ho _ => exact moves_of_ready (Matched.isReady_of_ready (.answered deadline _ hs ho))
    | underway hclaim _ _ =>
      obtain hclaim | hclaim | hclaim := hclaim
      · exact moves_of_ready (Matched.isReady_of_ready (.claimed hclaim))
      · exact moves_of_ready (Matched.isReady_of_ready (.spawned _ hclaim))
      · exact moves_of_ready (Matched.isReady_of_ready (.returned _ hclaim))
  | ended hrest hs _ =>
    subst hrest
    cases hf.place with
    | staying deadline hstage hlife _ _ =>
      exact moves_of_ready (Matched.isReady_of_ready (.leaving deadline hstage (hlife ▸ rfl)))
    | leaving _ _ _ _ hasked =>
      have hheld : (s.harness r).broker.held ≠ [] := by
        change s.broker.held ≠ []
        rw [hasked.held]
        exact List.cons_ne_nil _ _
      exact ⟨_, .confirmed hheld rfl⟩
    | left _ _ _ hd =>
      refine (hdone ⟨?_, hd.confirmed.ge⟩).elim
      change ((told s.stage).findSome? _).isSome = true
      rw [hs]
      rfl
  | registered hs =>
    cases rest with
    | nil => exact ⟨_, .awaited (Matched.act?_await hs)⟩
    | cons x rest =>
      obtain ⟨reply, ha⟩ := Matched.act?_publish hf.attached.consumers (Utf8.encode x)
      refine ⟨_, .published ?_ ha⟩
      change _ ∈ told s.stage
      rw [hs]
      exact List.mem_singleton_self _

/-- There is something to come next until the replay is done. -/
theorem Scene.moves (hs : r.Scene k m rest h) (hfind : r.Finds before line behind m)
    (hdone : ¬ Done h) : ∃ next, r.Moves (rest, h) next := by
  cases hs with
  | calling clock _ _ =>
    exact ⟨_, .stepped (.wait 0) ((step?_calling _).trans (if_pos rfl)) (.inr rfl)⟩
  | opening clock _ _ =>
    exact ⟨_, .stepped (.generation 0) ((step?_opening _).trans (if_pos rfl)) (.inr rfl)⟩
  | listening l hf => exact moves_listening hf hfind
  | matched s hf => exact moves_matched hf hdone

end Replay

/-! A replay that is done. -/

/-- The caller has its outcome, the callback has ended, and the consumer has left. -/
structure Matched.Over (r : Replay) (k : Nat) (m : Json) (s : Matched) : Prop where
  fits : s.Fits r k m []
  ended : s.stage = .ended (r.verdict k m)
  settled : s.claim = .settled
  acked : s.broker.acked = r.acks k
  complete : s.consumer.life.state = .complete
  detached : r.Detached s.broker

namespace Matched.Over
variable {r : Replay} {k : Nat} {m : Json} {s : Matched}

theorem outcome? (ho : s.Over r k m) : Replay.outcome? (s.harness r) = some (r.verdict k m) := by
  change (Replay.told s.stage).findSome? _ = _
  rw [ho.ended]
  rfl

theorem lastTag (ho : s.Over r k m) : s.broker.lastTag = r.lines.length := ho.fits.count

/-- Nothing is left unsettled: the claim was the only open one, and the consumer has rejected all that
nobody took. -/
theorem tags (ho : s.Over r k m) (hr : Harness.ReachableAlone r.setup (s.harness r)) :
    s.broker.tags = [] := by
  obtain ⟨f, hl⟩ := Matched.live hr
  have hterminal : ((s.harness r).currentState.map (·.isTerminal)).getD true = true :=
    congrArg GenerationState.isTerminal ho.complete
  obtain ⟨hprevious, hnone⟩ := hl.rest (Harness.paired_reachable hr.reachable) rfl hterminal
  apply List.eq_nil_iff_forall_not_mem.2
  intro tag ht
  rcases (hl.active.tracks tag).1 ht with hmem | ⟨_, hle, hshould | ⟨hlt, _, _⟩⟩
  · obtain ⟨x, hx, _, hopen⟩ := hl.active.processing_open tag hmem
    obtain rfl := List.mem_singleton.1 hx
    change s.claim.isOpen = true at hopen
    rw [ho.settled] at hopen
    cases hopen
  · exact hnone tag hshould
  · omega

/-- Every line is acknowledged or rejected. -/
theorem balanced (ho : s.Over r k m) (hr : Harness.ReachableAlone r.setup (s.harness r)) :
    (r.acks k ++ s.broker.nacked).Perm (List.range' 1 r.lines.length) := by
  have hbalanced := (Harness.settled_reachable hr).books.balanced
  change (s.broker.acked ++ s.broker.nacked ++ s.broker.tags).Perm
    (List.range' 1 s.broker.lastTag) at hbalanced
  rwa [ho.tags hr, List.append_nil, ho.acked, ho.lastTag] at hbalanced

theorem accounted (ho : s.Over r k m) (hr : Harness.ReachableAlone r.setup (s.harness r)) :
    r.Accounted k m (s.harness r) where
  delivered := ho.lastTag
  accepted hf := by
    have hbalanced := ho.balanced hr
    have hacks : r.acks k = [k] := if_neg (by simp [hf])
    rw [hacks] at hbalanced
    have hnacked := (List.cons_perm_iff_perm_erase.1 hbalanced).2
    refine ⟨ho.outcome?.trans (congrArg some (Replay.verdict_of_accepted hf)),
      ho.acked.trans hacks, hnacked, ?_⟩
    have hlength := hbalanced.length_eq
    rw [List.singleton_append, List.length_cons, List.length_range'] at hlength
    change s.broker.backlog.length = _
    rw [ho.fits.backlog]
    omega
  rejected hf := by
    have hbalanced := ho.balanced hr
    have hacks : r.acks k = [] := if_pos hf
    rw [hacks, List.nil_append] at hbalanced
    refine ⟨ho.outcome?.trans (congrArg some (Replay.verdict_of_rejected hf)),
      ho.acked.trans hacks, hbalanced, ?_⟩
    change s.broker.backlog.length = _
    rw [ho.fits.backlog, hbalanced.length_eq, List.length_range']
  unsettled := List.map_eq_nil_iff.1 (ho.tags hr)
  violations := (Harness.settled_reachable hr).books.violations
  consumers := ho.detached.consumers
  operations := ho.detached.operations
  succeeds := Replay.exitCode_printed ho.outcome?

end Matched.Over

namespace Replay
variable {r : Replay} {before behind rest : List String} {line : String} {k : Nat} {m : Json}
  {h h' : Harness Json} {t : Task}

/-- Only a caller whose wait is over has an outcome. -/
theorem Scene.over (hs : r.Scene k m rest h) (hdone : Done h) :
    rest = [] ∧ ∃ s : Matched, h = s.harness r ∧ s.Over r k m := by
  obtain ⟨houtcome, hconfirmed⟩ := hdone
  cases hs with
  | calling | opening => cases houtcome
  | listening l hf =>
    change ((told l.stage).findSome? _).isSome = true at houtcome
    cases hf.caller with
    | starting hs _ | registered hs | awaited _ hs | awaiting _ _ hs =>
      rw [hs] at houtcome
      cases houtcome
  | matched s hf =>
    change ((told s.stage).findSome? _).isSome = true at houtcome
    cases hf.caller with
    | registered hs | awaited _ hs | awaiting _ _ hs _ =>
      rw [hs] at houtcome
      cases houtcome
    | ended hrest hs hclaim =>
      subst hrest
      rw [hf.tag, hf.message] at hs
      cases hf.place with
      | staying _ _ _ _ hattached =>
        change 1 ≤ s.broker.confirmed at hconfirmed
        rw [hattached.confirmed] at hconfirmed
        cases hconfirmed
      | leaving _ _ _ _ hasked =>
        change 1 ≤ s.broker.confirmed at hconfirmed
        rw [hasked.confirmed] at hconfirmed
        cases hconfirmed
      | left _ _ hlife hd =>
        cases hf.progress with
        | underway h _ _ =>
          rw [hclaim] at h
          simp at h
        | settled _ _ hacked => exact ⟨rfl, s, rfl, hf, hs, hclaim, hf.tag ▸ hacked, hlife, hd⟩

end Replay
end Intercept.CommandLine
