import Intercept.Proofs.Harness.Succession
import Intercept.Proofs.Harness.Unclaimed

/-! Whoever is listed fails as soon as the deadline of a generation has passed. The generation stops,
and its ledger pass rejects what nobody claimed. -/
namespace Intercept

/-- A setup in which the deadlines come after two ticks, and some bodies are no messages. -/
def Setup.brief : Setup Bool where
  format := { decode? := fun body => if body.isEmpty then none else some true, view := fun _ => .null }
  consumerTag := fun _ => "consumer"
  settings := { timeoutMs := 2 }

namespace Harness
variable {M : Type} {cfg : Setup M} {allowed : Act M → Prop} {h h' : Harness M}
  {s : Nat → Harness M} {e : HarnessError} {c g i j k m n t : Nat} {w w' : Wait M}
  {taker : Option Nat} {d : Delivery}

/-- All listed waiters fail, nobody else does, and the generation stops. -/
structure Unacks (cfg : Setup M) (s : Nat → Harness M) (n g : Nat) (h' : Harness M) : Prop where
  failed : ∀ i ∈ (s n).roll, ∃ w e, (s n).waits[i]? = some w ∧ w.outcome = .pending ∧
    h'.waits[i]? = some { w with outcome := .resolved (.error e) } ∧
    Reported cfg s n i .unackedMessage e
  others : ∀ i ∉ (s n).roll, h'.waits[i]? = (s n).waits[i]?
  waiters : h'.waiters = []
  stopped : (h'.life g).stopRequested = true

theorem Lapses.step (hl : h.Lapses g t) :
    h.step? cfg (.generation g) = some ((h.expireAll cfg g).leave cfg g) := by
  obtain ⟨x, hx, hst, hgoing⟩ := hl.routing
  have hdue : (some t).any (· ≤ h.clock) = true := decide_eq_true hl.due
  rw [step?, stepGeneration?, hx, Option.bind_eq_bind, Option.bind_some, hst]
  simp only [route?, hx, Option.bind_eq_bind, Option.bind_some, if_neg hgoing, if_pos hdue]

theorem Paired.started_of_watches {deadline : Option Nat} (hp : h.Paired) (ho : h.Orderly)
    (hw : h.Watches g deadline) : (h.life g).state = .started := by
  obtain ⟨x, hx, hst, hgoing⟩ := hw
  obtain ⟨_, hobs⟩ := hp.unfailed_of_routing hx hgoing
  rw [life_of_some (lives_of_some hx)]
  exact (GenerationState.isObserving_iff.1 hobs).resolve_left (ho.opened g x deadline hx hst)

theorem Run.unacks (hr : Run cfg allowed s) (hl : (s n).Lapses g t) :
    Unacks cfg s n g (((s n).expireAll cfg g).leave cfg g) where
  failed := fun i hi => by
    obtain ⟨w, _, hw, hpending, _⟩ := (hr.attended n).wait_of_roll hi
    obtain ⟨v, hv, hid, hresolved⟩ := resolveAll_of_roll cfg.unacked hw hi hpending
    rw [(waits_expired (hr.current_lt n)).1]
    exact ⟨w, _, hw, hpending, hresolved,
      hr.reported hv hid (v.report .unackedMessage cfg.settings.timeout cfg.context)⟩
  others := fun i hi => by
    rw [(waits_expired (hr.current_lt n)).1]
    cases hw : (s n).waits[i]? with
    | none => exact none_resolveAll hw
    | some w =>
      obtain ⟨w', hw', ⟨_, rfl⟩ | ⟨v, hv, hid, _⟩⟩ :=
        resolveAll_wait (s n).waiters cfg.unacked hw
      · exact hw'
      · exact (hi (mem_roll_of_mem hv hid)).elim
  waiters := (waits_expired (hr.current_lt n)).2
  stopped := by
    have hstarted := (hr.paired n).started_of_watches (hr.attended n).toOrderly hl.routing
    obtain ⟨x, hx, _⟩ := hl.routing
    have hstop := life_changeLife (h := (s n).cleared cfg.unacked) (f := (·.stop)) (g := g)
      (List.getElem?_eq_some_iff.1 hx).1
    refine (proceeds_leave.older.lives g).stopped ?_
    rw [expireAll_cleared, hstop, if_pos rfl]
    change (((s n).life g).stop).stopRequested = true
    simp [Lifecycle.stop, hstarted, GenerationState.on]

theorem Dispatched.clock {deadline : Option Nat} {rest : List Delivery}
    (hd : h.Dispatched cfg g deadline d rest h') : h'.clock = h.clock := by
  cases hd <;> rfl

/-- The clock does not get past the deadline of a generation that routes deliveries. -/
theorem Run.clock_le_deadline (hr : Run cfg allowed s) (hp : Punctual cfg s)
    (hw : (s n).Watches g (some t)) : (s n).clock ≤ t := by
  induction n with
  | zero =>
    obtain ⟨x, hx, _⟩ := hw
    rw [hr.start] at hx
    cases hx
  | succ n ih =>
    rcases (hr.happening n).watches (hr.paired n) (hr.paired (n + 1)) hw with
      ⟨_, hkept | ⟨hnone, _⟩⟩ | ⟨d, rest, x, deadline₀, hserves, hst, hd⟩
    · rcases hr.clock_succ n with hsame | hticked
      · rw [hsame]
        exact ih hkept
      · -- The clock may move, so the deadline is still to come.
        have hbefore : ¬ t ≤ (s n).clock := fun hdue => by
          have hstill := hp.still (Lapses.step ⟨hkept, hdue⟩)
          rw [hticked] at hstill
          exact Nat.succ_ne_self _ hstill
        rw [hticked]
        exact Nat.lt_of_not_le hbefore
    · cases hnone
    · rw [hd.clock]
      have hbefore : (s n).Watches g deadline₀ := ⟨x, hserves.found, hst, hserves.going⟩
      rcases hr.dispatched hserves hd hw with ⟨_, heq⟩ | ⟨_, hnone⟩
      · cases deadline₀ with
        | some t₀ =>
          cases heq
          exact ih hbefore
        | none =>
          cases heq
          exact Nat.le_add_right _ _
      · cases hnone

/-- The deadline of a generation passes exactly a timeout after the first delivery that nobody took. -/
theorem Run.lapses_iff {deadline : Option Nat} (hr : Run cfg allowed s) (hp : Punctual cfg s)
    (hw : (s n).Watches g deadline) : (∃ t, (s n).Lapses g t) ↔
      ∃ k, FirstUnclaimed s g n k ∧ (s n).clock = (s k).clock + cfg.timeout := by
  constructor
  · rintro ⟨t, hrouting, hdue⟩
    obtain ⟨k, hk, rfl⟩ := (hr.deadline_iff hrouting).1 rfl
    exact ⟨k, hk, Nat.le_antisymm (hr.clock_le_deadline hp hrouting) hdue⟩
  · rintro ⟨k, hk, hclock⟩
    obtain rfl := (hr.deadline_iff hw).2 ⟨k, hk, rfl⟩
    exact ⟨_, hw, Nat.le_of_eq hclock.symm⟩

theorem Completion.lapses (hc : h.Completion cfg h' i (.error e))
    (he : e.reason? = some .unackedMessage) :
    ∃ g t, h.Lapses g t ∧ h' = (h.expireAll cfg g).leave cfg g := by
  cases hc with
  | answered x _ _ _ hanswers _ => cases hanswers <;> cases he
  | failed e _ _ hfault _ =>
    rw [reason_of_terminal (HarnessError.isTerminal_of_fault hfault)] at he
    cases he
  | disposed _ _ => cases he
  | expired g t v hl heq _ _ => exact ⟨g, t, hl, heq⟩

theorem Run.lapses_of_outcome (hr : Run cfg allowed s) (hw : (s n).waits[i]? = some w)
    (hpending : w.outcome = .pending) (hw' : (s (n + 1)).waits[i]? = some w')
    (ho : w'.outcome = .resolved (.error e)) (he : e.reason? = some .unackedMessage) :
    ∃ g t, (s n).Lapses g t ∧ s (n + 1) = ((s n).expireAll cfg g).leave cfg g := by
  obtain ⟨u, hu, hcourse⟩ := hr.course n hw
  obtain rfl := Option.some.inj (hw'.symm.trans hu)
  rcases hcourse.outcome with hsame | ⟨_, o, ho', hcompletion⟩
  · rw [hsame, hpending] at ho
    cases ho
  · rw [ho] at ho'
    obtain rfl := OneShot.resolved.inj ho'
    exact hcompletion.lapses he

/-! What is rejected. -/

theorem gone_expired (hlt : ∀ g, h.current = some g → g < h.generations.length)
    (hg : g < h.generations.length) (hf : ((h.expireAll cfg g).leave cfg g).failure = none) :
    ((h.expireAll cfg g).leave cfg g).Gone g := by
  have hpro : (h.expireAll cfg g).Proceeds g .ended ((h.expireAll cfg g).leave cfg g) :=
    proceeds_leave
  rcases hpro.cases (current_lt_expireAll hlt) with ⟨hq, _, _, hself⟩ | ⟨e, he⟩
  · have hlen : g < ((h.expireAll cfg g).leave cfg g).generations.length :=
      Nat.lt_of_lt_of_le hg (older_expireAll.trans hq.toOlder).length
    have hx := List.getElem?_eq_getElem hlen
    exact ⟨_, hx, hself _ (by rw [hx]; rfl)⟩
  · rw [he.failure] at hf
    cases hf

section
variable (hr : Run cfg (fun a => a.isForeign = false) s)
include hr

theorem Run.watches_of_routes (hroutes : Routes s k g taker) (hle : k ≤ n)
    (hgoing : ((s n).life g).stopRequested ≠ true) : ∃ deadline, (s n).Watches g deadline := by
  obtain ⟨d, rest, x, hserves, hstarted⟩ := hr.serves_of_routes hroutes
  obtain ⟨y, hy, honward, _⟩ := hr.grows hle g x hserves.found
  have hlife := life_of_some (lives_of_some hy)
  rw [life_of_some (lives_of_some hserves.found)] at hstarted
  rw [hlife] at hgoing
  have hp := hr.paired n
  obtain ⟨_, hobs⟩ := hp.unfailed_of_routing hy hgoing
  have hlisted := (hp.awaited _ (List.mem_of_getElem? (lives_of_some hy)) hobs).2
  obtain ⟨c, z, deadline, _, _, hz, hst⟩ := (hr.attended n).attached (hr.settled n) hp hlisted
    (hp.current_of_routing hy hgoing) (hlife ▸ honward.started _ hstarted)
  obtain rfl := Option.some.inj (hy.symm.trans hz)
  exact ⟨deadline, y, hy, hst, hgoing⟩

theorem Run.pass_between (hle : m ≤ n) (hopen : ¬ (s m).Completed g) (hc : (s n).Completed g) :
    ∃ k, m ≤ k ∧ k < n ∧ (s k).Passes cfg g (s (k + 1)) := by
  induction n, hle using Nat.le_induction with
  | base => exact (hopen hc).elim
  | succ n hle ih =>
    by_cases hbefore : (s n).Completed g
    · obtain ⟨k, hmk, hkn, hpass⟩ := ih hbefore
      exact ⟨k, hmk, Nat.lt_succ_of_lt hkn, hpass⟩
    · cases hr.channelled n with
      | apart hu => exact (hbefore ((hu.completed g).1 hc)).elim
      | attached _ _ _ _ hsame | withheld _ _ _ hsame => exact (hbefore ((hsame g).1 hc)).elim
      | passed k hpass =>
        obtain ⟨_, _, _, hpassed⟩ := hr.passed hpass
        by_cases hk : g = k
        · exact ⟨n, hle, Nat.lt_succ_self n, hk ▸ hpass⟩
        · exact (hbefore ((hpassed.completed g hk).1 hc)).elim

theorem Run.received_before_pass (hpass : (s m).Passes cfg g (s (m + 1))) (hd : Receives s j g d)
    (hf : (s j).failure = none) : j < m := by
  obtain ⟨_, _, _, hpassed⟩ := hr.passed hpass
  obtain ⟨hlow, hhigh, _, c, hc, hsink⟩ := hd
  rcases Nat.lt_trichotomy j m with hlt | rfl | hgt
  · exact hlt
  · rw [hpassed.lastTag] at hhigh
    omega
  · have hdone := (hr.grows hgt).completed (hpassed.unfailed (hr.unfailed_of_le hgt hf)).2.1
    obtain ⟨f, hl⟩ := (hr.settled j).live hf
    have hlt := hl.lt_of_completed hdone
    cases hl.front with
    | rest _ hnone _ _ _ | opening _ _ _ _ hnone _ _ | closing _ _ _ _ _ hnone _ _ =>
      rw [hc] at hnone
      cases hnone
    | routing _ c' _ _ _ hattached _ hsink' _ _ =>
      rw [hc] at hattached
      cases hattached
      omega

theorem Run.pass_rejects (hpass : (s m).Passes cfg g (s (m + 1))) (hd : Receives s j g d)
    (hmn : m < n) (hjn : j < n) (hf : (s n).failure = none)
    (hfree : ∀ x ∈ (s n).claims, x.tag ≠ d.tag) : d.tag ∈ (s (m + 1)).broker.nacked := by
  have hjm := hr.received_before_pass hpass hd (hr.unfailed_of_le (Nat.le_of_lt hjn) hf)
  have hfree' : ∀ x ∈ (s m).claims, x.tag ≠ d.tag := by
    intro x hx htag
    obtain ⟨y, hy, hdeal⟩ := hr.claim_of_le (Nat.le_of_lt hmn) hx
    exact hfree y hy ((Claim.deal_eq_iff.1 hdeal).1.trans htag)
  obtain ⟨_, _, _, hpassed⟩ := hr.passed hpass
  obtain ⟨hfm, _, _, _, hrejects⟩ := hpassed.unfailed (hr.unfailed_of_le hmn hf)
  obtain ⟨f, hl⟩ := (hr.settled m).live hfm
  have hdelivered : d.tag ∈ List.range' 1 (s m).broker.lastTag := by
    have := hr.lastTag_of_le (show j + 1 ≤ m from hjm)
    obtain ⟨hlow, hhigh, _⟩ := hd
    rw [List.mem_range'_1]
    omega
  rw [← hl.active.balanced.mem_iff, List.mem_append, List.mem_append] at hdelivered
  rcases hdelivered with (hacked | hnacked) | htag
  · obtain ⟨y, hy, htag, _⟩ := (hr.reckoned m).acked _ hacked
    exact (hfree' y hy htag).elim
  · exact hpassed.nacked _ hnacked
  · refine hrejects _ htag ?_
    rcases (hl.active.tracks d.tag).1 htag with hproc | hdue
    · obtain ⟨x, hx, htag, _⟩ := hl.active.processing_open _ hproc
      exact (hfree' x hx htag).elim
    · exact hdue

/-- Whoever is over has run its ledger pass, unless its cancel is held back. -/
theorem Run.completed_of_gone (hgone : (s n).Gone g) (hf : (s n).failure = none) :
    (s n).Completed g ∨ ∃ c, (s n).broker.held = [c] ∧ c.sink = g := by
  obtain ⟨f, hl⟩ := (hr.settled n).live hf
  obtain ⟨x, hx, hended⟩ := hgone
  rcases Nat.lt_trichotomy g f with hlt | rfl | hgt
  · exact .inl (hl.completed_past (hr.attended n).toOrderly hlt)
  · right
    cases hl.front with
    | rest hlen _ _ _ _ =>
      have := (List.getElem?_eq_some_iff.1 hx).1
      omega
    | opening y hy hst _ _ _ _ =>
      rw [hx] at hy
      cases hy
      rw [hended] at hst
      cases hst
    | routing y _ _ hy hst _ _ _ _ _ =>
      rw [hx] at hy
      cases hy
      rw [hended] at hst
      cases hst
    | closing _ c _ _ _ _ hheld hsink => exact ⟨c, hheld, hsink⟩
  · rcases (hl.lineup.behind g x hx hgt).2 with hst | ⟨_, hst⟩ <;>
      · rw [hended] at hst
        cases hst

/-- Once the deadline has passed, the ledger pass of the generation rejects what nobody claimed, unless
the cancel is held back. -/
theorem Run.rejects_unclaimed {p : Nat} (hl : (s n).Lapses g t)
    (hs : s (n + 1) = ((s n).expireAll cfg g).leave cfg g) (hlt : n < p)
    (hf : (s p).failure = none) : (∃ c, (s p).broker.held = [c] ∧ c.sink = g) ∨
      ∃ m, n ≤ m ∧ m < p ∧ (s m).Passes cfg g (s (m + 1)) ∧ ∀ j d, j < p → Receives s j g d →
        (∀ x ∈ (s p).claims, x.tag ≠ d.tag) → d.tag ∈ (s (m + 1)).broker.nacked := by
  have hstarted := (hr.paired n).started_of_watches (hr.attended n).toOrderly hl.routing
  obtain ⟨x, hx, _⟩ := hl.routing
  have hlife := lives_of_some hx
  have hopen : ¬ (s n).Completed g := by
    rw [life_of_some hlife] at hstarted
    have hsignalled := (hr.attended n).signalled _ (List.mem_of_getElem? hlife)
    simp [Completed, life_of_some hlife, hsignalled.stopping (by simp [hstarted])]
  have hgone : (s (n + 1)).Gone g := by
    have hf' := hr.unfailed_of_le hlt hf
    rw [hs] at hf' ⊢
    exact gone_expired (hr.current_lt n) (List.getElem?_eq_some_iff.1 hx).1 hf'
  rcases hr.completed_of_gone ((hr.grows hlt).gone hgone) hf with hdone | hheld
  · obtain ⟨m, hnm, hmp, hpass⟩ := hr.pass_between (Nat.le_of_lt hlt) hopen hdone
    exact .inr ⟨m, hnm, hmp, hpass, fun j d hj hd hfree => hr.pass_rejects hpass hd hmp hj hf hfree⟩
  · exact .inl hheld

end

/-- As long as a generation routes deliveries, the clock does not get further than a timeout after the
first delivery that nobody took since one was claimed, or since the generation started. There, and
before the clock moves on, all listed waiters fail, nobody is listed any more and the generation
stops. No wait fails with this reason at another time. As long as nobody else is a client of the
broker, a generation routes deliveries until it is stopped. Once the deadline has passed, its ledger
pass rejects all that it received and nobody claimed, if the harness does not fail: then its cancel is
still held back, or the pass is over. -/
theorem expiry_follows_first_unclaimed (hr : Run cfg (fun _ => True) s) (hp : Punctual cfg s) :
    (∀ n g k deadline, (s n).Watches g deadline → FirstUnclaimed s g n k →
      (s n).clock ≤ (s k).clock + cfg.timeout ∧
      ((s n).clock = (s k).clock + cfg.timeout → (s (n + 1)).clock = (s n).clock ∧
        ∃ h', (s n).step? cfg (.generation g) = some h' ∧ Unacks cfg s n g h')) ∧
    (∀ (n i : Nat) (w w' : Wait M) (e : HarnessError), (s n).waits[i]? = some w →
      w.outcome = .pending →
      (s (n + 1)).waits[i]? = some w' → w'.outcome = .resolved (.error e) →
      e.reason? = some .unackedMessage → ∃ g k deadline, (s n).Watches g deadline ∧
        FirstUnclaimed s g n k ∧ (s n).clock = (s k).clock + cfg.timeout ∧
        (s n).step? cfg (.generation g) = some (s (n + 1)) ∧ Unacks cfg s n g (s (n + 1))) ∧
    (Run cfg (fun a => a.isForeign = false) s →
      (∀ n g k, FirstUnclaimed s g n k → ((s n).life g).stopRequested ≠ true →
        ∃ deadline, (s n).Watches g deadline) ∧
      ∀ n p g k deadline, (s n).Watches g deadline → FirstUnclaimed s g n k →
        (s n).clock = (s k).clock + cfg.timeout →
        (s n).step? cfg (.generation g) = some (s (n + 1)) → n < p → (s p).failure = none →
        (∃ c, (s p).broker.held = [c] ∧ c.sink = g) ∨
        ∃ m, n ≤ m ∧ m < p ∧ (s m).Passes cfg g (s (m + 1)) ∧ ∀ j d, j < p → Receives s j g d →
          (∀ x ∈ (s p).claims, x.tag ≠ d.tag) → d.tag ∈ (s (m + 1)).broker.nacked) := by
  refine ⟨fun n g k deadline hw hk => ⟨?_, fun hclock => ?_⟩,
    fun n i w w' e hw hpending hw' ho he => ?_, fun halone =>
    ⟨fun n g k hk hgoing => halone.watches_of_routes hk.unclaimed (Nat.le_of_lt hk.before) hgoing,
      fun n p g k deadline hw hk hclock hstep hlt hf => ?_⟩⟩
  · obtain rfl := (hr.deadline_iff hw).2 ⟨k, hk, rfl⟩
    exact hr.clock_le_deadline hp hw
  · obtain ⟨t, hl⟩ := (hr.lapses_iff hp hw).2 ⟨k, hk, hclock⟩
    exact ⟨hp.still hl.step, _, hl.step, hr.unacks hl⟩
  · obtain ⟨g, t, hl, heq⟩ := hr.lapses_of_outcome hw hpending hw' ho he
    obtain ⟨k, hk, hclock⟩ := (hr.lapses_iff hp hl.routing).1 ⟨t, hl⟩
    refine ⟨g, k, _, hl.routing, hk, hclock, ?_, ?_⟩
    · rw [heq, hl.step]
    · rw [heq]
      exact hr.unacks hl
  · obtain ⟨t, hl⟩ := (hr.lapses_iff hp hw).2 ⟨k, hk, hclock⟩
    have heq : s (n + 1) = ((s n).expireAll cfg g).leave cfg g :=
      (Option.some.inj (hl.step.symm.trans hstep)).symm
    exact halone.rejects_unclaimed hl heq hlt hf

/-- Nobody takes a delivery that is no message. The predicate of the first waiter raises on the next
one, and that of the second, who came in between, does not want it. -/
def neglect : List (Move Bool) :=
  [.act (.call "a message" fun _ => .raised ⟨"refused", []⟩), .step (.wait 0),
    .step (.generation 0), .step (.wait 0), .act (.publish []), .step (.generation 0), .tick,
    .act (.call "another" fun _ => .holds false), .step (.wait 1), .step (.wait 1),
    .act (.publish [0]), .step (.generation 0), .tick, .step (.generation 0)]

/-- Both waiters fail two ticks after the first delivery, and both deliveries are rejected. -/
theorem both_unclaimed_rejected : ∃ s : Nat → Harness Bool,
    Run .brief (fun a => a.isForeign = false) s ∧ Punctual .brief s ∧ (s 13).clock = 2 ∧
    (∃ h', (s 13).step? .brief (.generation 0) = some h' ∧ Unacks .brief s 13 0 h') ∧
    1 ∈ (s 14).broker.nacked ∧ 2 ∈ (s 14).broker.nacked := by
  have hr : Run .brief _ (after .brief (initial .brief) neglect) := run_after rfl
  have hp : Punctual .brief (after .brief (initial .brief) neglect) := punctual_after rfl
  have hfirst : FirstUnclaimed (after .brief (initial .brief) neglect) 0 13 5 := by
    have hnobody : ∀ j < 13, ((after .brief (initial .brief) neglect j).routing
        (after .brief (initial .brief) neglect (j + 1))).bind (·.2) = none := by decide
    have hnothing : ∀ j < 5, ((after .brief (initial .brief) neglect j).routing
        (after .brief (initial .brief) neglect (j + 1))).isNone = true := by decide
    refine ⟨by decide, ⟨rfl, _, rfl⟩, fun j _ hj i ⟨_, d, hd⟩ => ?_, fun j hj ⟨_, d, hd⟩ => ?_⟩
    · have hclaimed := hnobody j hj
      rw [hd] at hclaimed
      cases hclaimed
    · have hrouted := hnothing j hj
      rw [hd] at hrouted
      cases hrouted
  have hw : (after .brief (initial .brief) neglect 13).Watches 0 (some 2) := ⟨_, rfl, rfl, by decide⟩
  obtain ⟨hdue, _, hrejected⟩ := expiry_follows_first_unclaimed (hr.mono fun _ _ => trivial) hp
  obtain ⟨_, h', hstep, hunacks⟩ := (hdue 13 0 5 _ hw hfirst).2 rfl
  have hnext : after .brief (initial .brief) neglect (13 + 1) = h' :=
    congrArg (Option.getD · (after .brief (initial .brief) neglect 13)) hstep
  refine ⟨_, hr, hp, rfl, ⟨h', hstep, hunacks⟩, ?_⟩
  have hpass := (hrejected hr).2 13 14 0 5 _ hw hfirst rfl (by rw [hnext, hstep]) (by decide) rfl
  rcases hpass with ⟨c, hheld, _⟩ | ⟨m, hnm, hmp, _, hall⟩
  · cases hheld
  · obtain rfl : m = 13 := by omega
    exact ⟨hall 4 ⟨1, []⟩ (by decide) ⟨by decide, by decide, by decide, _, rfl, rfl⟩ nofun,
      hall 10 ⟨2, [0]⟩ (by decide) ⟨by decide, by decide, by decide, _, rfl, rfl⟩ nofun⟩

end Harness
end Intercept
