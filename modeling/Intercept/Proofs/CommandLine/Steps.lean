import Intercept.Proofs.CommandLine.Positions
import Intercept.Proofs.Harness.Rest
import Intercept.Proofs.Harness.Succession

/-! What a step of a replay does: its task has done some work, nobody else is kept from going on, and
the replay stands at the next of its positions. -/
namespace Intercept.CommandLine

namespace Replay
variable (r : Replay)

/-- The work that is left to do before and as the caller begins to await its outcome. -/
def toAwait : WaitStage Json → Nat
  | .calling | .starting _ | .registered => 4
  | _ => 0

/-- What comes of a step: the task has done some work, and hinders nobody else. -/
structure Advances (k : Nat) (m : Json) (rest : List String) (t : Task) (h h' : Harness Json) :
    Prop where
  scene : r.Scene k m rest h'
  expands : h.Expands h'
  works : h'.work r.setup < h.work r.setup
  awaits : Harness.total (fun w => toAwait w.stage) h'.waits ≤
    Harness.total (fun w => toAwait w.stage) h.waits
  /-- Only the consumer's cancel can come to be held back, and only by a broker that is slow. -/
  holds : h'.broker.held.length ≤ h.broker.held.length + 1
  prompt : h.broker.Prompt → h'.broker.Prompt
  spares : ∀ t', t' ≠ t → h.isReady r.setup t' = true → h'.isReady r.setup t' = true

end Replay

namespace Listening
variable {r : Replay} {before behind rest : List String} {line : String} {k : Nat} {m : Json}
  {l l' : Listening} {t : Task}

theorem Holds.congr {handed queue : List String} (hh : l.Holds r rest handed queue)
    (hin : l'.inbound = l.inbound) (hlast : l'.broker.lastTag = l.broker.lastTag) :
    l'.Holds r rest handed queue :=
  ⟨hh.lines, hh.unmatched, hin.trans hh.inbound, hlast.trans hh.count⟩

theorem Caller.congr (hc : l.Caller rest) (hs : l'.stage = l.stage)
    (hin : l'.inbound = l.inbound) : l'.Caller rest := by
  cases hc with
  | starting h hnone => exact .starting (hs.trans h) (hin.trans hnone)
  | registered h => exact .registered (hs.trans h)
  | awaited hrest h => exact .awaited hrest (hs.trans h)
  | awaiting deadline hrest h => exact .awaiting deadline hrest (hs.trans h)

/-- A caller that awaits its outcome began to once all lines were published. -/
theorem Caller.all_published (hc : l.Caller rest) (hs : Replay.toAwait l.stage = 0) : rest = [] := by
  cases hc with
  | awaited hrest _ | awaiting _ hrest _ => exact hrest
  | starting h _ | registered h =>
    rw [h] at hs
    cases hs

/-- The caller goes on. -/
theorem Fits.restage {stage : WaitStage Json} (hf : l.Fits r rest)
    (hs : ∀ deadline, stage = .awaiting deadline → l.clock < deadline)
    (hc : ({ l with stage } : Listening).Caller rest) : ({ l with stage } : Listening).Fits r rest where
  early := ⟨hs, hf.early.routing⟩
  holds := by
    obtain ⟨handed, queue, hh⟩ := hf.holds
    exact ⟨handed, queue, hh.congr rfl rfl⟩
  caller := hc
  waiter := hf.waiter
  attached := hf.attached
  untouched := hf.untouched

/-- Whoever else can go on as the caller does. -/
theorem Ready.restage {stage : WaitStage Json} (hr : l.Ready t) (ht : t ≠ .wait 0) :
    ({ l with stage } : Listening).Ready t := by
  cases hr with
  | starting | awaited => exact (ht rfl).elim
  | serving hin => exact .serving hin

theorem advances_caller {stage : WaitStage Json} (hf : l.Fits r rest)
    (hs : ∀ deadline, stage = .awaiting deadline → l.clock < deadline)
    (hc : ({ l with stage } : Listening).Caller rest)
    (hwork : Harness.WaitStage.work stage < Harness.WaitStage.work l.stage)
    (hawait : Replay.toAwait stage ≤ Replay.toAwait l.stage) :
    r.Advances k m rest (.wait 0) (l.harness r) ({ l with stage }.harness r) where
  scene := .listening _ (hf.restage hs hc)
  expands := ⟨Nat.le_refl _, Nat.le_refl _, Nat.le_refl _⟩
  works := by
    rw [work_listening, work_listening]
    exact Nat.add_lt_add_right hwork _
  awaits := hawait
  holds := Nat.le_succ _
  prompt hp := hp
  spares t' hne hr :=
    isReady_of_ready (hf.restage hs hc).early ((ready_of_isReady hf hr).restage hne)

/-- What is queued is handed out in its order. -/
theorem Holds.serving {handed queue : List String} {d : Delivery} {ds : List Delivery}
    (hh : l.Holds r rest handed queue) (hin : l.inbound = d :: ds) :
    ∃ x queue', queue = x :: queue' ∧ d = ⟨handed.length + 1, Utf8.encode x⟩ ∧
      ds = deliveries (handed.length + 1) queue' := by
  have hqueue := hh.inbound
  rw [hin] at hqueue
  cases queue with
  | nil => cases hqueue
  | cons x queue =>
    rw [deliveries_cons] at hqueue
    obtain ⟨rfl, rfl⟩ := List.cons.inj hqueue
    exact ⟨x, queue, rfl, rfl, rfl⟩

/-- Whether the waiter takes a line. -/
theorem Fits.matches (hf : l.Fits r rest) (x : Json) :
    l.waiter.matchesMessage x = (x.member? r.field).any (·.same r.expected) := by
  rw [Waiter.matchesMessage, hf.waiter.2]
  rfl

theorem Fits.unmatched {x : String} (hf : l.Fits r rest) (hx : r.matched? x = none) :
    ∀ m, r.setup.format.decode? (Utf8.encode x) = some m → l.waiter.matchesMessage m = false := by
  intro m hm
  rw [Replay.matched?, hm] at hx
  rw [hf.matches]
  simpa using hx

theorem Fits.matched {x : String} (hf : l.Fits r rest) (hx : r.matched? x = some m) :
    r.setup.format.decode? (Utf8.encode x) = some m ∧ l.waiter.matchesMessage m = true := by
  obtain ⟨hdecoded, hm⟩ := Option.filter_eq_some_iff.1 hx
  rw [hf.matches]
  exact ⟨hdecoded, hm⟩

theorem Caller.passed {d : Delivery} {ds : List Delivery} (hc : l.Caller rest)
    (hin : l.inbound = d :: ds) : (l.passed r d ds).Caller rest := by
  cases hc with
  | starting _ hnone =>
    rw [hin] at hnone
    cases hnone
  | registered h => exact .registered h
  | awaited hrest h => exact .awaited hrest h
  | awaiting deadline hrest h => exact .awaiting deadline hrest h

theorem Early.passed {d : Delivery} {ds : List Delivery} (he : l.Early) (ht : 0 < r.setup.timeout) :
    (l.passed r d ds).Early where
  awaiting := he.awaiting
  routing deadline hd := by
    cases hl : l.deadline with
    | none =>
      rw [Listening.passed, hl] at hd
      cases hd
      exact Nat.lt_add_of_pos_right ht
    | some deadline' =>
      rw [Listening.passed, hl] at hd
      cases hd
      exact he.routing deadline hl

/-- Whoever else can go on as a delivery is handed out. -/
theorem Ready.passed {d : Delivery} {ds : List Delivery} (hr : l.Ready t)
    (ht : t ≠ .generation 0) : (l.passed r d ds).Ready t := by
  cases hr with
  | starting hs => exact .starting hs
  | awaited hs => exact .awaited hs
  | serving => exact (ht rfl).elim

theorem Ready.taken {d : Delivery} {ds : List Delivery} (hc : l.Caller rest)
    (hin : l.inbound = d :: ds) (hr : l.Ready t) (ht : t ≠ .generation 0) :
    (l.taken r d ds m).Ready t := by
  cases hr with
  | awaited hs => exact .awaited hs
  | serving => exact (ht rfl).elim
  | starting hs =>
    cases hc with
    | starting _ hnone =>
      rw [hin] at hnone
      cases hnone
    | registered h | awaited _ h | awaiting _ _ h =>
      rw [hs] at h
      cases h

theorem Caller.taken {d : Delivery} {ds : List Delivery} (hc : l.Caller rest) (he : l.Early)
    (hin : l.inbound = d :: ds) : (l.taken r d ds m).Caller r rest := by
  cases hc with
  | starting _ hnone =>
    rw [hin] at hnone
    cases hnone
  | registered h => exact .registered h
  | awaited hrest h => exact .awaited hrest h
  | awaiting deadline hrest h => exact .awaiting deadline hrest h fun _ => he.awaiting deadline h

theorem Holds.passed {handed queue : List String} {x : String} {d : Delivery} {ds : List Delivery}
    (hh : l.Holds r rest handed (x :: queue)) (hds : ds = deliveries (handed.length + 1) queue)
    (hx : r.matched? x = none) : (l.passed r d ds).Holds r rest (handed ++ [x]) queue where
  lines := by
    rw [hh.lines, List.append_assoc]
    rfl
  unmatched := by
    intro y hy
    obtain hy | hy := List.mem_append.1 hy
    · exact hh.unmatched y hy
    · rw [List.mem_singleton.1 hy, hx]
  inbound := by
    rw [List.length_append]
    exact hds
  count := by
    have hcount := hh.count
    rw [List.length_cons] at hcount
    change l.broker.lastTag = _
    rw [hcount, List.length_append, List.length_singleton]
    omega

theorem deliveryWork_pos {d : Delivery} : 0 < Harness.deliveryWork r.setup 1 d := by
  rw [Harness.deliveryWork]
  split <;> omega

/-- The next line is not matched. -/
theorem advances_passed {handed queue : List String} {x : String} {d : Delivery} {ds : List Delivery}
    (hf : l.Fits r rest) (ht : 0 < r.setup.timeout) (hh : l.Holds r rest handed (x :: queue))
    (hin : l.inbound = d :: ds) (hds : ds = deliveries (handed.length + 1) queue)
    (hx : r.matched? x = none) :
    r.Advances k m rest (.generation 0) (l.harness r) ((l.passed r d ds).harness r) := by
  have hfits : (l.passed r d ds).Fits r rest := {
    early := hf.early.passed ht
    holds := ⟨_, _, hh.passed hds hx⟩
    caller := hf.caller.passed hin
    waiter := ⟨Waiter.see_id.trans hf.waiter.1, Waiter.see_predicate.trans hf.waiter.2⟩
    attached := hf.attached
    untouched := hf.untouched }
  constructor
  · exact .listening _ hfits
  · exact ⟨Nat.le_refl _, Nat.le_refl _, Nat.le_refl _⟩
  · have hpos : 0 < Harness.deliveryWork r.setup 1 d := deliveryWork_pos
    rw [work_listening, work_listening, hin, Harness.total]
    change Harness.WaitStage.work l.stage + (1 + Harness.total _ ds) < _
    omega
  · exact Nat.le_refl _
  · exact Nat.le_succ _
  · exact fun hp => hp
  · intro t' hne hr
    exact isReady_of_ready hfits.early ((ready_of_isReady hf hr).passed hne)

/-- The first line that is matched is the one that the caller waits for. -/
theorem Holds.first {handed queue : List String} {x : String} {m' : Json}
    (hh : l.Holds r rest handed (x :: queue)) (hfind : r.Finds before line behind m)
    (hx : r.matched? x = some m') : handed = before ∧ m' = m := by
  have hsplit : handed ++ x :: (queue ++ rest) = before ++ line :: behind := by
    rw [← hfind.lines, hh.lines, List.cons_append]
  have hfirst : handed = before ∧ x = line := by
    apply split_first_unique (p := fun y => (r.matched? y).isSome) hsplit
    · simp [hx]
    · simp [hfind.line]
    · intro y hy
      simp [hh.unmatched y hy]
    · intro y hy
      simp [hfind.before y hy]
  obtain ⟨rfl, rfl⟩ := hfirst
  exact ⟨rfl, Option.some.inj (hx.symm.trans hfind.line)⟩

theorem fits_taken {handed queue : List String} {x : String} {d : Delivery} {ds : List Delivery}
    (hf : l.Fits r rest) (hh : l.Holds r rest handed (x :: queue)) (hin : l.inbound = d :: ds)
    (hd : d = ⟨handed.length + 1, Utf8.encode x⟩) :
    (l.taken r d ds m).Fits r (handed.length + 1) m rest where
  tag := congrArg Delivery.tag hd
  message := rfl
  taken := by
    have hcount := hh.count
    rw [List.length_cons] at hcount
    change 0 < l.broker.lastTag
    omega
  count := by
    have hcount := hh.count
    have hlines := congrArg List.length hh.lines
    rw [List.length_append, List.length_append] at hlines
    change l.broker.lastTag + _ = _
    omega
  backlog := by
    obtain ⟨_, hnacked, hbacklog⟩ := hf.untouched
    change l.broker.backlog.length = l.broker.nacked.length
    rw [hbacklog, hnacked]
    rfl
  progress := .underway (.inl rfl) rfl hf.untouched.1
  place := .staying none rfl rfl rfl hf.attached
  caller := hf.caller.taken hf.early hin

/-- The next line is the one that the caller waits for. -/
theorem advances_taken {handed queue : List String} {x : String} {d : Delivery} {ds : List Delivery}
    (hf : l.Fits r rest) (hh : l.Holds r rest handed (x :: queue)) (hin : l.inbound = d :: ds)
    (hd : d = ⟨handed.length + 1, Utf8.encode x⟩) (hx : r.matched? x = some m) :
    r.Advances (handed.length + 1) m rest (.generation 0) (l.harness r)
      ((l.taken r d ds m).harness r) := by
  constructor
  · exact .matched _ (fits_taken hf hh hin hd)
  · exact ⟨Nat.le_refl _, Nat.le_refl _, Nat.zero_le _⟩
  · have hwork : Harness.deliveryWork r.setup 1 d = (r.callback m).length + 7 := by
      rw [Harness.deliveryWork, hd, (hf.matched hx).1]
      rfl
    rw [Matched.work_matched, work_listening, hin, Harness.total, hwork]
    change Harness.WaitStage.work l.stage + (1 + Harness.total _ ds) +
      ((r.callback m).length + 6) < _
    omega
  · exact Nat.le_refl _
  · exact Nat.le_succ _
  · exact fun hp => hp
  · intro t' hne hr
    exact Matched.isReady_of_ready ((ready_of_isReady hf hr).taken hf.caller hin hne)

/-- Whatever task goes on while no line was matched. -/
theorem advances {h' : Harness Json} (hf : l.Fits r rest) (ht : 0 < r.setup.timeout)
    (hfind : r.Finds before line behind m) (hs : (l.harness r).step? r.setup t = some h') :
    r.Advances (before.length + 1) m rest t (l.harness r) h' := by
  have hready : (l.harness r).isReady r.setup t = true := by
    rw [Harness.isReady, hs]
    rfl
  cases ready_of_isReady hf hready with
  | starting hstage =>
    rw [step?_starting hstage] at hs
    cases hs
    refine advances_caller hf (fun _ h => by cases h) (.registered rfl) ?_ ?_ <;> rw [hstage] <;>
      decide
  | awaited hstage =>
    rw [step?_awaited hstage] at hs
    cases hs
    have hrest : rest = [] := by
      apply hf.caller.all_published
      rw [hstage]
      rfl
    refine advances_caller hf ?_ (.awaiting _ hrest rfl) ?_ ?_
    · intro deadline heq
      cases heq
      exact Nat.lt_add_of_pos_right ht
    · rw [hstage]
      exact Nat.lt_succ_self 2
    · exact Nat.zero_le _
  | serving hin =>
    obtain ⟨d, ds, hin⟩ := List.exists_cons_of_ne_nil hin
    obtain ⟨handed, queue, hh⟩ := hf.holds
    obtain ⟨x, queue, rfl, hd, hds⟩ := hh.serving hin
    cases hx : r.matched? x with
    | none =>
      rw [step?_unmatched hf.early hin (hd ▸ hf.unmatched hx)] at hs
      cases hs
      exact advances_passed hf ht hh hin hds hx
    | some m' =>
      obtain ⟨hdecoded, hm⟩ := hf.matched hx
      rw [step?_matched hf.early hin hf.waiter.1 (hd ▸ hdecoded) hm] at hs
      cases hs
      obtain ⟨rfl, rfl⟩ := hh.first hfind hx
      exact advances_taken hf hh hin hd hx

end Listening

namespace Matched
variable {r : Replay} {k : Nat} {m : Json} {rest : List String} {s s' : Matched} {t : Task}
  {b : Broker Nat}

theorem Progress.congr (hp : s.Progress r) (hclaim : s'.claim = s.claim)
    (houtcome : s'.outcome = s.outcome) (htag : s'.tag = s.tag) (hmessage : s'.message = s.message)
    (hacked : s'.broker.acked = s.broker.acked) : s'.Progress r := by
  cases hp with
  | underway hs ho ha =>
    exact .underway (by rwa [hclaim, hmessage]) (houtcome.trans ho) (hacked.trans ha)
  | settled hs ho ha =>
    exact .settled (hclaim.trans hs) (by rw [houtcome, ho, htag, hmessage]) (by rw [hacked, ha, htag])

theorem Place.congr (hp : s.Place r rest) (hconsumer : s'.consumer = s.consumer)
    (hconsumers : s'.broker.consumers = s.broker.consumers)
    (hheld : s'.broker.held = s.broker.held) (hconfirmed : s'.broker.confirmed = s.broker.confirmed)
    (hoperations : s'.broker.operations.filter (!·.isSettlement) =
      s.broker.operations.filter (!·.isSettlement)) : s'.Place r rest := by
  cases hp with
  | staying deadline hs hlife htag ha =>
    rw [← hconsumer] at hs hlife htag
    exact .staying deadline hs hlife htag ⟨hconsumers.trans ha.consumers, hheld.trans ha.held,
      hconfirmed.trans ha.confirmed, hoperations.trans ha.operations⟩
  | leaving hrest hs hlife htag ha =>
    rw [← hconsumer] at hs hlife htag
    exact .leaving hrest hs hlife htag ⟨hconsumers.trans ha.consumers, hheld.trans ha.held,
      hconfirmed.trans ha.confirmed, hoperations.trans ha.operations⟩
  | left hrest hs hlife hd =>
    rw [← hconsumer] at hs hlife
    exact .left hrest hs hlife ⟨hconsumers.trans hd.consumers, hheld.trans hd.held,
      hconfirmed.trans hd.confirmed, hoperations.trans hd.operations⟩

theorem Caller.congr (hc : s.Caller r rest) (hstage : s'.stage = s.stage)
    (hclock : s'.clock = s.clock) (htag : s'.tag = s.tag) (hmessage : s'.message = s.message)
    (hpending : s'.outcome = .pending → s.outcome = .pending)
    (hsettled : s.claim = .settled → s'.claim = .settled) : s'.Caller r rest := by
  cases hc with
  | registered hs => exact .registered (hstage.trans hs)
  | awaited hrest hs => exact .awaited hrest (hstage.trans hs)
  | awaiting deadline hrest hs hearly =>
    exact .awaiting deadline hrest (hstage.trans hs) fun ho => hclock ▸ hearly (hpending ho)
  | ended hrest hs hclaim =>
    exact .ended hrest (by rw [hstage, hs, htag, hmessage]) (hsettled hclaim)

theorem Caller.all_published (hc : s.Caller r rest) (hs : Replay.toAwait s.stage = 0) :
    rest = [] := by
  cases hc with
  | awaited hrest _ | awaiting _ hrest _ _ | ended hrest _ _ => exact hrest
  | registered h =>
    rw [h] at hs
    cases hs

/-- Whoever can go on still can if nothing has changed for it. -/
theorem Ready.congr (hr : s.Ready t)
    (hcaller : t = .wait 0 → s'.stage = s.stage ∧
      ∀ o, s.outcome = .resolved o → s'.outcome = .resolved o)
    (hconsumer : t = .generation 0 → s'.consumer = s.consumer)
    (hclaim : t = .claim 0 ∨ t = .callback 0 → s'.claim = s.claim) : s'.Ready t := by
  cases hr with
  | awaited hs => exact .awaited ((hcaller rfl).1.trans hs)
  | answered deadline o hs ho =>
    exact .answered deadline o ((hcaller rfl).1.trans hs) ((hcaller rfl).2 o ho)
  | leaving deadline hs hstop =>
    rw [← hconsumer rfl] at hs hstop
    exact .leaving deadline hs hstop
  | claimed hs => exact .claimed ((hclaim (.inl rfl)).trans hs)
  | returned result hs => exact .returned result ((hclaim (.inl rfl)).trans hs)
  | spawned actions hs => exact .spawned actions ((hclaim (.inr rfl)).trans hs)

theorem advances_of (hf : s.Fits r k m rest) (hf' : s'.Fits r k m rest)
    (hwork : (s'.harness r).work r.setup < (s.harness r).work r.setup)
    (hawait : Replay.toAwait s'.stage ≤ Replay.toAwait s.stage)
    (hheld : s'.broker.held.length ≤ s.broker.held.length + 1)
    (hprompt : s.broker.Prompt → s'.broker.Prompt)
    (hready : ∀ t', t' ≠ t → s.Ready t' → s'.Ready t') :
    r.Advances k m rest t (s.harness r) (s'.harness r) where
  scene := .matched s' hf'
  expands := ⟨Nat.le_refl _, Nat.le_refl _, Nat.le_refl _⟩
  works := hwork
  awaits := hawait
  holds := hheld
  prompt := hprompt
  spares t' hne hr := isReady_of_ready (hready t' hne (ready_of_isReady hf hr))

/-- The caller goes on. -/
theorem Fits.restage {stage : WaitStage Json} (hf : s.Fits r k m rest)
    (hc : ({ s with stage } : Matched).Caller r rest) :
    ({ s with stage } : Matched).Fits r k m rest :=
  { hf with
    progress := hf.progress.congr rfl rfl rfl rfl rfl
    place := hf.place.congr rfl rfl rfl rfl rfl
    caller := hc }

theorem advances_caller {stage : WaitStage Json} (hf : s.Fits r k m rest)
    (hc : ({ s with stage } : Matched).Caller r rest)
    (hwork : Harness.WaitStage.work stage < Harness.WaitStage.work s.stage)
    (hawait : Replay.toAwait stage ≤ Replay.toAwait s.stage) :
    r.Advances k m rest (.wait 0) (s.harness r) ({ s with stage }.harness r) := by
  apply advances_of hf (hf.restage hc)
  · rw [work_matched, work_matched]
    exact Nat.add_lt_add_right (Nat.add_lt_add_right hwork _) _
  · exact hawait
  · exact Nat.le_succ _
  · exact fun hp => hp
  · intro t' hne hr
    exact hr.congr (fun h => (hne h).elim) (fun _ => rfl) fun _ => rfl

/-! What the books say. -/

theorem live (hr : Harness.ReachableAlone r.setup (s.harness r)) :
    ∃ f, (s.harness r).Live f := (Harness.settled_reachable hr).live rfl

/-- The delivery of a claim that is underway is not settled, and the ledger knows the claim. -/
theorem unsettled (hr : Harness.ReachableAlone r.setup (s.harness r)) (hopen : s.claim.isOpen = true) :
    s.broker.disposed = false ∧ s.tag ∈ s.broker.tags ∧
      ∀ settlement, ∃ ledger, s.ledger.endProcessing s.tag settlement = .ok ledger := by
  obtain ⟨f, hl⟩ := live hr
  have hmem : s.tag ∈ s.ledger.processing :=
    hl.active.unfinished _ (List.mem_singleton_self _) hopen
  refine ⟨hl.active.running, (hl.active.tracks s.tag).2 (.inl hmem), fun settlement => ?_⟩
  obtain ⟨ledger, hledger, _⟩ := Ledger.endProcessing_of_mem hmem settlement
  exact ⟨ledger, hledger⟩

/-- As the cancel of the consumer is confirmed, its rejects go through. -/
theorem rejects {s' : Matched} (hr : Harness.ReachableAlone r.setup (s.harness r))
    (hd : s'.broker.disposed = s.broker.disposed) (htags : s'.broker.tags = s.broker.tags) :
    ∃ b, s'.broker.Rejected b ∧ (s'.completed.harness r).nackAll r.setup s.ledger.plan.rejects =
      ({ s'.completed.harness r with broker := b }, .ok ()) := by
  obtain ⟨f, hl⟩ := live hr
  have haccepted : Accepted {t | t ∈ s'.broker.tags} s.ledger.plan.rejects := by
    rw [htags]
    exact hl.active.tracks.accepted hl.active.sound
  obtain ⟨b, hissued, hb⟩ := @Harness.nackAll_granted _ r.setup (s'.completed.harness r)
    s.ledger.plan.rejects (fun _ => rfl) (hd.trans hl.active.running) haccepted
  exact ⟨b, hb, hissued⟩

theorem asked_broker (htag : s.consumer.consumer = r.consumerTag) (ha : r.Attached s.broker) :
    r.Asked (s.asked [r.subscriber]).broker := by
  refine ⟨rfl, rfl, ha.confirmed, ?_⟩
  change (s.broker.operations ++ [_]).filter _ = _
  rw [List.filter_append, ha.operations, htag]
  rfl

theorem fits_asked (hf : s.Fits r k m []) (hlife : s.consumer.life = Replay.begun.stop)
    (htag : s.consumer.consumer = r.consumerTag) (ha : r.Attached s.broker) :
    (s.asked [r.subscriber]).Fits r k m [] where
  tag := hf.tag
  message := hf.message
  taken := hf.taken
  count := hf.count
  backlog := hf.backlog
  progress := hf.progress.congr rfl rfl rfl rfl rfl
  place := .leaving rfl rfl hlife htag (asked_broker htag ha)
  caller := hf.caller.congr rfl rfl rfl rfl (fun ho => ho) fun hs => hs

theorem fits_departed (hf : s.Fits r k m []) (htag : s.consumer.consumer = r.consumerTag)
    (hstage : s.consumer.stage = .ended) (ha : r.Asked s.broker)
    (hb : s.released.broker.Rejected b) : (s.released.departed b).Fits r k m [] where
  tag := hf.tag
  message := hf.message
  taken := hb.lastTag.symm ▸ hf.taken
  count := by
    rw [← hf.count]
    exact congrArg (· + 0) hb.lastTag
  backlog := by
    have hbacklog : b.backlog.length + s.broker.nacked.length =
      s.broker.backlog.length + b.nacked.length := hb.backlog
    have hbefore := hf.backlog
    change b.backlog.length = b.nacked.length
    omega
  progress := hf.progress.congr rfl rfl rfl rfl hb.acked
  place := by
    refine .left rfl hstage rfl ⟨hb.consumers.trans ha.consumers, hb.held, ?_, ?_⟩
    · exact congrArg (· + 1) (hb.confirmed.trans ha.confirmed)
    · change (b.operations ++ [_]).filter _ = _
      rw [List.filter_append, hb.operations]
      change s.broker.operations.filter _ ++ _ = _
      rw [ha.operations]
      change _ ++ [Operation.cancelConfirmed s.consumer.consumer] = _
      rw [htag]
      rfl
  caller := hf.caller.congr rfl rfl rfl rfl (fun ho => ho) fun hs => hs

/-- A cancel that is confirmed at once is not held back. -/
theorem asked_released (held : List (Consumer Nat)) (hp : s.broker.Prompt) :
    s.asked s.broker.held = (s.asked held).released := by
  obtain ⟨clock, stage, outcome, consumer, tag, message, claim, cancelCalls,
    ⟨lastTag, consumers, unsettled, acked, nacked, backlog, operations, violations, holding, held',
      confirmed, disposed⟩, ledger, calls⟩ := s
  obtain rfl : holding = false := hp.holding
  obtain rfl : held' = [] := hp.held
  rfl

theorem advances_left {consumer : Generation} {cancelCalls : Nat} {ledger : Ledger}
    {deadline : Option Nat} (hf : s.Fits r k m []) (hstage : s.consumer.stage = .routing deadline)
    (hended : consumer.stage = .ended) (hinbound : consumer.inbound = s.consumer.inbound)
    (hf' : ({ s with consumer, cancelCalls, broker := b, ledger } : Matched).Fits r k m [])
    (hheld : b.held.length ≤ s.broker.held.length + 1) (hprompt : s.broker.Prompt → b.Prompt) :
    r.Advances k m [] (.generation 0) (s.harness r)
      ({ s with consumer, cancelCalls, broker := b, ledger }.harness r) := by
  apply advances_of hf hf'
  · rw [work_matched, work_matched, hstage]
    change Harness.WaitStage.work s.stage + (Harness.Stage.work consumer.stage +
      Harness.total (Harness.deliveryWork r.setup 1) consumer.inbound) + _ < _
    rw [hended, hinbound]
    exact Nat.add_lt_add_right (Nat.add_lt_add_left (Nat.add_lt_add_right Nat.zero_lt_one _) _) _
  · exact Nat.le_refl _
  · exact hheld
  · exact hprompt
  · intro t' hne hr
    exact hr.congr (fun _ => ⟨rfl, fun _ ho => ho⟩) (fun h => (hne h).elim) fun _ => rfl

/-- The consumer leaves once all lines are published. Its cancel is confirmed at once, or held
back. -/
theorem advances_leaving {h' : Harness Json} (hf : s.Fits r k m rest)
    (hr : Harness.ReachableAlone r.setup (s.harness r)) {deadline : Option Nat}
    (hstage : s.consumer.stage = .routing deadline)
    (hs : (s.harness r).step? r.setup (.generation 0) = some h')
    (hstays : rest = [] ∨ h'.cancelCalls = s.cancelCalls) :
    r.Advances k m rest (.generation 0) (s.harness r) h' := by
  obtain ⟨f, hl⟩ := live hr
  cases hf.place with
  | leaving _ hended _ _ _ | left _ hended _ _ =>
    rw [hstage] at hended
    cases hended
  | staying deadline' _ hlife htag ha =>
    have hconsumers : s.broker.consumers =
        [⟨s.consumer.consumer, r.settings.priority.toInt, 0⟩] := by
      rw [htag]
      exact ha.consumers
    cases hholding : s.broker.holding with
    | true =>
      rw [step?_asked hstage hlife hl.active.running hconsumers hholding, ha.held, htag] at hs
      cases hs
      obtain rfl := hstays.resolve_right (Nat.succ_ne_self s.cancelCalls)
      refine advances_left hf hstage rfl rfl (fits_asked hf hlife htag ha) ?_ fun hp => ?_
      · rw [ha.held]
        exact Nat.le_refl _
      · rw [hp.holding] at hholding
        cases hholding
    | false =>
      have hprompt : s.broker.Prompt := ⟨hholding, ha.held⟩
      obtain ⟨b, hb, hissued⟩ := @rejects _ s (s.asked s.broker.held) hr rfl rfl
      rw [step?_departed hstage hlife hl.active.running hconsumers hholding hissued] at hs
      cases hs
      obtain rfl := hstays.resolve_right (Nat.succ_ne_self s.cancelCalls)
      have hfits : ((s.asked s.broker.held).departed b).Fits r k m [] := by
        rw [asked_released [r.subscriber] hprompt] at hb ⊢
        exact fits_departed (fits_asked hf hlife htag ha) htag rfl (asked_broker htag ha) hb
      refine advances_left hf hstage rfl rfl hfits ?_ fun hp => ?_
      · exact (congrArg List.length hb.held).trans_le (Nat.le_succ _)
      · have hstill := hb.toStands.prompt ⟨hp.holding, hp.held⟩
        exact ⟨hstill.holding, hstill.held⟩

/-! The claim goes on. -/

/-- A claim and its callback take turns. -/
theorem Ready.apart {t' : Task} (hr : s.Ready t) (ht : t = .claim 0 ∨ t = .callback 0)
    (hr' : s.Ready t') (hne : t' ≠ t) : ¬ (t' = .claim 0 ∨ t' = .callback 0) := by
  rintro (rfl | rfl) <;> obtain rfl | rfl := ht
  · exact hne rfl
  · cases hr with
    | spawned actions hs =>
      cases hr' with
      | claimed hs' | returned _ hs' =>
        rw [hs] at hs'
        cases hs'
  · cases hr' with
    | spawned actions hs =>
      cases hr with
      | claimed hs' | returned _ hs' =>
        rw [hs] at hs'
        cases hs'
  · exact hne rfl

theorem advances_claim {outcome : OneShot (Outcome Json)} {claim : ClaimStage} {ledger : Ledger}
    {calls : List (CallNote Json)} (hf : s.Fits r k m rest) (hready : s.Ready t)
    (ht : t = .claim 0 ∨ t = .callback 0) (hopen : s.claim.isOpen = true)
    (ho : s.outcome = .pending) (hstands : s.broker.Stands b)
    (hbacklog : b.backlog.length = b.nacked.length)
    (hp : ({ s with outcome, claim, broker := b, ledger, calls } : Matched).Progress r)
    (hwork : Harness.ClaimStage.work (r.callback s.message).length claim <
      Harness.ClaimStage.work (r.callback s.message).length s.claim) :
    r.Advances k m rest t (s.harness r)
      ({ s with outcome, claim, broker := b, ledger, calls }.harness r) := by
  have hfits : ({ s with outcome, claim, broker := b, ledger, calls } : Matched).Fits r k m rest := {
    tag := hf.tag
    message := hf.message
    taken := hstands.lastTag.symm ▸ hf.taken
    count := by
      rw [← hf.count]
      exact congrArg (· + rest.length) hstands.lastTag
    backlog := hbacklog
    progress := hp
    place := hf.place.congr rfl hstands.consumers hstands.held hstands.confirmed hstands.operations
    caller := hf.caller.congr rfl rfl rfl rfl (fun _ => ho) fun hs => by
      rw [hs] at hopen
      cases hopen }
  apply advances_of hf hfits
  · rw [work_matched, work_matched]
    exact Nat.add_lt_add_left hwork _
  · exact Nat.le_refl _
  · exact (congrArg List.length hstands.held).trans_le (Nat.le_succ _)
  · exact hstands.prompt
  · intro t' hne hr
    refine hr.congr (fun _ => ⟨rfl, fun o hs => ?_⟩) (fun _ => rfl) fun h => ?_
    · rw [ho] at hs
      cases hs
    · exact (hready.apart ht hr hne h).elim

/-- As long as a claim is underway its caller has no outcome, and nothing is acknowledged. -/
theorem Fits.pending (hf : s.Fits r k m rest) (hopen : s.claim.isOpen = true) :
    s.outcome = .pending ∧ s.broker.acked = [] := by
  cases hf.progress with
  | underway _ ho hacked => exact ⟨ho, hacked⟩
  | settled hs _ _ =>
    rw [hs] at hopen
    cases hopen

theorem Fits.spawned {actions : List Action} (hf : s.Fits r k m rest)
    (hs : s.claim = .running (.spawned actions)) : actions = r.callback s.message := by
  cases hf.progress with
  | underway h _ _ =>
    rw [hs] at h
    simpa using h
  | settled h _ _ =>
    rw [hs] at h
    cases h

theorem Fits.returned {result : Except Failure Unit} (hf : s.Fits r k m rest)
    (hs : s.claim = .running (.returned result)) : result = r.result s.message := by
  cases hf.progress with
  | underway h _ _ =>
    rw [hs] at h
    simpa using h
  | settled h _ _ =>
    rw [hs] at h
    cases h

/-- The callback has ended, and its delivery is settled. -/
theorem advances_settled {o : Outcome Json} {ledger : Ledger} (hf : s.Fits r k m rest)
    (ho : s.outcome = .pending) (hclaim : s.claim = .running (.returned (r.result s.message)))
    (hverdict : o = r.verdict s.tag s.message) (hstands : s.broker.Stands b)
    (hbacklog : b.backlog.length = b.nacked.length) (hacks : b.acked = r.acks s.tag) :
    r.Advances k m rest (.claim 0) (s.harness r) ({ s with
      outcome := s.outcome.resolve o, claim := .settled, broker := b, ledger }.harness r) := by
  have hopen : s.claim.isOpen = true := hclaim ▸ rfl
  refine advances_claim hf (.returned _ hclaim) (.inl rfl) hopen ho hstands hbacklog
    (.settled rfl ?_ hacks) ?_
  · rw [ho, hverdict]
    rfl
  · rw [hclaim]
    exact Nat.zero_lt_one

theorem advances_succeeded {h' : Harness Json} (hf : s.Fits r k m rest)
    (hr : Harness.ReachableAlone r.setup (s.harness r)) (ho : s.outcome = .pending)
    (hacked : s.broker.acked = []) (hclaim : s.claim = .running (.returned (r.result s.message)))
    (hresult : r.result s.message = .ok ())
    (hs : (s.harness r).step? r.setup (.claim 0) = some h') :
    r.Advances k m rest (.claim 0) (s.harness r) h' := by
  obtain ⟨hd, ht, hends⟩ := unsettled hr (hclaim ▸ rfl)
  obtain ⟨ledger, hend⟩ := hends .acked
  obtain ⟨b, hb, _⟩ := Broker.ack_of_unsettled hd ht
  obtain ⟨hstands, hacks, hnacked, hbacklog⟩ := Broker.stands_ack hd ht
  rw [hb] at hstands hacks hnacked hbacklog
  rw [step?_succeeded (hresult ▸ hclaim) hb hend] at hs
  cases hs
  apply advances_settled hf ho hclaim ?_ hstands
  · rw [hnacked, hbacklog]
    exact hf.backlog
  · rw [Replay.acks_of_ok hresult, hacks, hacked]
    rfl
  · rw [Replay.verdict, hresult]

/-- The callback has failed before the consumer hands its messages back, or after that. -/
theorem advances_failed {h' : Harness Json} {failure : Failure} (hf : s.Fits r k m rest)
    (hr : Harness.ReachableAlone r.setup (s.harness r)) (ho : s.outcome = .pending)
    (hacked : s.broker.acked = []) (hclaim : s.claim = .running (.returned (r.result s.message)))
    (hresult : r.result s.message = .error failure)
    (hs : (s.harness r).step? r.setup (.claim 0) = some h') :
    r.Advances k m rest (.claim 0) (s.harness r) h' := by
  obtain ⟨hd, ht, hends⟩ := unsettled hr (hclaim ▸ rfl)
  have hverdict : (.error (.processing s.tag failure) : Outcome Json) =
      r.verdict s.tag s.message := by
    rw [Replay.verdict, hresult]
  have hnone : s.broker.acked = r.acks s.tag := hacked.trans (Replay.acks_of_error hresult).symm
  have hlife : s.consumer.life = Replay.begun.stop ∨ s.consumer.life.state = .complete := by
    cases hf.place with
    | staying _ _ hlife _ _ | leaving _ _ hlife _ _ => exact .inl hlife
    | left _ _ hlife _ => exact .inr hlife
  cases hlife with
  | inl hlife =>
    obtain ⟨ledger, hend⟩ := hends .shouldNack
    rw [step?_failed_early (hresult ▸ hclaim) (hlife ▸ rfl) hend] at hs
    cases hs
    exact advances_settled hf ho hclaim hverdict ⟨rfl, rfl, rfl, rfl, rfl, rfl⟩ hf.backlog hnone
  | inr hlife =>
    obtain ⟨ledger, hend⟩ := hends .alreadyNacked
    obtain ⟨b, hb, _⟩ := @Broker.nack_of_unsettled Nat s.broker s.tag false hd ht
    have hrejected : s.broker.Rejected b := by
      have hall := @Broker.rejected_nack Nat s.broker s.tag false hd ht
      rwa [hb] at hall
    rw [step?_failed_late (hresult ▸ hclaim) (hlife ▸ rfl) hend hb] at hs
    cases hs
    apply advances_settled hf ho hclaim hverdict hrejected.toStands
    · have hbacklog := hrejected.backlog
      have hbefore := hf.backlog
      omega
    · exact hrejected.acked.trans hnone

/-- Whatever task goes on once a line was matched. The consumer stays until all lines are
published. -/
theorem advances {h' : Harness Json} (hf : s.Fits r k m rest) (ht : 0 < r.setup.timeout)
    (hr : Harness.ReachableAlone r.setup (s.harness r))
    (hs : (s.harness r).step? r.setup t = some h')
    (hstays : rest = [] ∨ h'.cancelCalls = s.cancelCalls) :
    r.Advances k m rest t (s.harness r) h' := by
  have hready : (s.harness r).isReady r.setup t = true := by
    rw [Harness.isReady, hs]
    rfl
  cases ready_of_isReady hf hready with
  | awaited hstage =>
    rw [step?_awaited hstage] at hs
    cases hs
    have hrest : rest = [] := by
      apply hf.caller.all_published
      rw [hstage]
      rfl
    refine advances_caller hf (.awaiting _ hrest rfl fun _ => ?_) ?_ ?_
    · exact Nat.lt_add_of_pos_right ht
    · rw [hstage]
      exact Nat.lt_succ_self 2
    · exact Nat.zero_le _
  | answered deadline o hstage ho =>
    rw [step?_answered hstage ho] at hs
    cases hs
    have hrest : rest = [] := by
      apply hf.caller.all_published
      rw [hstage]
      rfl
    cases hf.progress with
    | underway _ hpending _ =>
      rw [ho] at hpending
      cases hpending
    | settled hclaim houtcome _ =>
      obtain rfl : o = r.verdict s.tag s.message :=
        OneShot.resolved.inj (ho.symm.trans houtcome)
      refine advances_caller hf (.ended hrest rfl hclaim) ?_ ?_
      · rw [hstage]
        exact Nat.zero_lt_two
      · exact Nat.zero_le _
  | leaving deadline hstage _ => exact advances_leaving hf hr hstage hs hstays
  | claimed hclaim =>
    obtain ⟨ho, hacked⟩ := hf.pending (by rw [hclaim]; rfl)
    rw [step?_claimed hclaim] at hs
    cases hs
    refine advances_claim hf (.claimed hclaim) (.inl rfl) (by rw [hclaim]; rfl) ho
      ⟨rfl, rfl, rfl, rfl, rfl, rfl⟩ hf.backlog (.underway (.inr (.inl rfl)) ho hacked) ?_
    rw [hclaim]
    exact Nat.add_lt_add_left (by decide) _
  | returned result hclaim =>
    obtain ⟨ho, hacked⟩ := hf.pending (by rw [hclaim]; rfl)
    obtain rfl := hf.returned hclaim
    cases hresult : r.result s.message with
    | ok u => exact advances_succeeded hf hr ho hacked hclaim hresult hs
    | error failure => exact advances_failed hf hr ho hacked hclaim hresult hs
  | spawned actions hclaim =>
    obtain ⟨ho, hacked⟩ := hf.pending (by rw [hclaim]; rfl)
    obtain rfl := hf.spawned hclaim
    obtain ⟨calls, hcalls⟩ := step?_spawned hclaim
    rw [hcalls] at hs
    cases hs
    refine advances_claim hf (.spawned _ hclaim) (.inr rfl) (by rw [hclaim]; rfl) ho
      ⟨rfl, rfl, rfl, rfl, rfl, rfl⟩ hf.backlog (.underway (.inr (.inr rfl)) ho hacked) ?_
    rw [hclaim]
    change 1 < (r.callback s.message).length + 3
    omega

end Matched
end Intercept.CommandLine
