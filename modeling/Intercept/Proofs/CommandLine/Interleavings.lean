import Intercept.Proofs.CommandLine.Steps
import Intercept.Proofs.Harness.Deadlines
import Intercept.Settings.Document

/-! The orders in which a replay may go on: its caller, its consumer, the callback and the broker each
do so in their own time. All of them come to an end. -/
namespace Intercept

/-- No timer is due that could still matter: neither the deadline of a caller without an outcome, nor
that of a delivery that nobody took. -/
structure Harness.InTime {M : Type} (h : Harness M) : Prop where
  waits : ∀ w ∈ h.waits, w.outcome = .pending → ∀ deadline, w.stage = .awaiting deadline →
    h.clock < deadline
  generations : ∀ x ∈ h.generations, x.life.stopRequested = false → ∀ deadline,
    x.stage = .routing (some deadline) → h.clock < deadline

namespace CommandLine

/-! A line is published. -/

namespace Listening
variable {r : Replay} {rest : List String} {line : String} {l : Listening}

theorem Caller.registered_of_told (hc : l.Caller (line :: rest))
    (htold : (0, .registered) ∈ Replay.told l.stage) : l.stage = .registered := by
  cases hc with
  | registered hs => exact hs
  | starting hs _ =>
    rw [hs] at htold
    cases htold
  | awaited hrest _ | awaiting _ hrest _ => cases hrest

theorem Holds.published {handed queue : List String} (hh : l.Holds r (line :: rest) handed queue) :
    (l.published (Utf8.encode line)).Holds r rest handed (queue ++ [line]) where
  lines := by
    rw [hh.lines, List.append_assoc]
    rfl
  unmatched := hh.unmatched
  inbound := by
    change l.inbound ++ [_] = _
    rw [hh.inbound, deliveries_concat, hh.count]
  count := by
    have hcount := hh.count
    change l.broker.lastTag + 1 = _
    rw [List.length_append, List.length_singleton]
    omega

theorem Fits.published (hf : l.Fits r (line :: rest)) (hs : l.stage = .registered) :
    (l.published (Utf8.encode line)).Fits r rest where
  early := ⟨hf.early.awaiting, hf.early.routing⟩
  holds := by
    obtain ⟨handed, queue, hh⟩ := hf.holds
    exact ⟨handed, queue ++ [line], hh.published⟩
  caller := .registered hs
  waiter := hf.waiter
  attached := ⟨hf.attached.consumers, hf.attached.held, hf.attached.confirmed,
    hf.attached.operations⟩
  untouched := hf.untouched

end Listening

namespace Matched
variable {r : Replay} {k : Nat} {m : Json} {rest : List String} {line : String} {s : Matched}

/-- The consumer stays until all lines are published. -/
theorem Fits.attached (hf : s.Fits r k m (line :: rest)) : r.Attached s.broker := by
  cases hf.place with
  | staying _ _ _ _ hattached => exact hattached
  | leaving hrest _ _ _ _ | left hrest _ _ _ => cases hrest

theorem Fits.published (hf : s.Fits r k m (line :: rest)) :
    (s.published (Utf8.encode line)).Fits r k m rest where
  tag := hf.tag
  message := hf.message
  taken := Nat.zero_lt_succ _
  count := by
    have hcount := hf.count
    rw [List.length_cons] at hcount
    change s.broker.lastTag + 1 + rest.length = _
    omega
  backlog := hf.backlog
  progress := hf.progress.congr rfl rfl rfl rfl rfl
  place := by
    cases hf.place with
    | staying deadline hs hlife htag ha =>
      exact .staying deadline hs hlife htag ⟨ha.consumers, ha.held, ha.confirmed, ha.operations⟩
    | leaving hrest _ _ _ _ | left hrest _ _ _ => cases hrest
  caller := by
    cases hf.caller with
    | registered hs => exact .registered hs
    | awaited hrest _ | awaiting _ hrest _ _ | ended hrest _ _ => cases hrest

end Matched

namespace Replay
variable {r : Replay} {before behind rest rest' : List String} {line : String} {k : Nat} {m : Json}
  {h h' : Harness Json} {t : Task}

/-- What may come next in a replay of which these lines are still to be published: one more line, once
the caller was told that its wait is registered; the caller awaits its outcome, once all lines are
published; the broker confirms a cancel that it held back; or a task goes on. No cancel is let through
between the lines. -/
inductive Moves (r : Replay) : List String × Harness Json → List String × Harness Json → Prop
  | published {line : String} {rest : List String} {h h' : Harness Json} {reply : BrokerReply} :
    (0, .registered) ∈ h.notices →
    h.act? r.setup (.publish (Utf8.encode line)) = some (h', reply) →
    Moves r (line :: rest, h) (rest, h')
  | awaited {h h' : Harness Json} {reply : BrokerReply} :
    h.act? r.setup (.await 0) = some (h', reply) → Moves r ([], h) ([], h')
  | confirmed {rest : List String} {h h' : Harness Json} {reply : BrokerReply} :
    h.broker.held ≠ [] → h.act? r.setup .release = some (h', reply) → Moves r (rest, h) (rest, h')
  | stepped {rest : List String} {h h' : Harness Json} (t : Task) :
    h.step? r.setup t = some h' → rest = [] ∨ h'.cancelCalls = h.cancelCalls →
    Moves r (rest, h) (rest, h')

/-- The states of a replay, whatever the order in which it goes on, until a timer is due. From some
time on the broker may be slow to confirm the cancel of the consumer. -/
inductive Underway (r : Replay) : List String → Harness Json → Prop
  | called {h : Harness Json} {reply : BrokerReply} :
    (Harness.initial r.setup).act? r.setup (.call r.description r.predicate) = some (h, reply) →
    Underway r r.lines h
  | slowed {rest : List String} {h h' : Harness Json} {reply : BrokerReply} : Underway r rest h →
    h.act? r.setup .hold = some (h', reply) → Underway r rest h'
  | moved {rest rest' : List String} {h h' : Harness Json} : Underway r rest h →
    Moves r (rest, h) (rest', h') → Underway r rest' h'
  | ticked {rest : List String} {h : Harness Json} : Underway r rest h →
    ({ h with clock := h.clock + 1 } : Harness Json).InTime →
    Underway r rest { h with clock := h.clock + 1 }

/-- The caller has its outcome, and the cancel of the consumer is confirmed. -/
def Done (h : Harness Json) : Prop := (outcome? h).isSome ∧ 1 ≤ h.broker.confirmed

theorem Moves.reachable (hm : r.Moves (rest, h) (rest', h'))
    (hr : Harness.ReachableAlone r.setup h) : Harness.ReachableAlone r.setup h' := by
  cases hm with
  | published _ ha => exact .act _ hr rfl ha
  | awaited ha => exact .act _ hr rfl ha
  | confirmed _ ha => exact .act _ hr rfl ha
  | stepped t hs _ => exact .step t hr hs

theorem Underway.reachable (hu : r.Underway rest h) : Harness.ReachableAlone r.setup h := by
  induction hu with
  | called ha => exact .act _ .initial rfl ha
  | slowed _ ha ih => exact .act _ ih rfl ha
  | moved _ hm ih => exact hm.reachable ih
  | ticked _ _ ih => exact .tick ih

/-- The settings are valid, so that no timer is due as it is set. -/
theorem timeout_pos (hv : r.settings.validate = .ok ()) : 0 < r.setup.timeout := by
  have hms : r.settings.timeoutMs ≠ 0 := by
    intro hz
    rw [Settings.validate, if_pos hz] at hv
    cases hv
  have hpos : 0 < r.settings.timeoutMs.toNat := by
    apply Nat.pos_of_ne_zero
    intro hz
    exact hms (UInt64.toNat.inj hz)
  change 0 < (Duration.ofMillis r.settings.timeoutMs.toNat).ticks
  simp only [Duration.ofMillis, Duration.ticks]
  omega

/-! A task goes on. -/

/-- The waiter of the caller is listed. -/
theorem advances_calling {clock : Nat} {holding : Bool} (hrest : rest = r.lines) :
    r.Advances k m rest (.wait 0) (r.calling clock holding) (r.opening clock holding) where
  scene := .opening clock holding hrest
  expands := ⟨Nat.le_refl _, Nat.zero_le _, Nat.le_refl _⟩
  works := (by decide : 5 < 6)
  awaits := Nat.le_refl _
  holds := Nat.le_succ _
  prompt hp := hp
  spares t' hne hready := by
    rw [Harness.isReady, step?_calling, if_neg hne] at hready
    cases hready

theorem fits_subscribed {clock : Nat} {holding : Bool} (hrest : rest = r.lines) :
    (r.subscribed clock holding).Fits r rest where
  early := by constructor <;> intro deadline hd <;> cases hd
  holds := by
    have hnone : ∀ x ∈ ([] : List String), r.matched? x = none := by
      intro x hx
      cases hx
    exact ⟨[], [], hrest.symm, hnone, rfl, rfl⟩
  caller := .starting rfl rfl
  waiter := ⟨rfl, rfl⟩
  attached := ⟨rfl, rfl, rfl, rfl⟩
  untouched := ⟨rfl, rfl, rfl⟩

theorem advances_opening {clock : Nat} {holding : Bool} (hrest : rest = r.lines) :
    r.Advances k m rest (.generation 0) (r.opening clock holding)
      ((r.subscribed clock holding).harness r) where
  scene := .listening _ (fits_subscribed hrest)
  expands := ⟨Nat.le_refl _, Nat.le_refl _, Nat.le_refl _⟩
  works := (by decide : 2 < 5)
  awaits := Nat.le_refl _
  holds := Nat.le_succ _
  prompt hp := ⟨hp.holding, rfl⟩
  spares t' hne hready := by
    rw [Harness.isReady, step?_opening, if_neg hne] at hready
    cases hready

/-- Whatever task goes on, the replay stands where it is to stand. -/
theorem Scene.advances (hs : r.Scene (before.length + 1) m rest h) (ht : 0 < r.setup.timeout)
    (hfind : r.Finds before line behind m) (hr : Harness.ReachableAlone r.setup h)
    (hstep : h.step? r.setup t = some h') (hstays : rest = [] ∨ h'.cancelCalls = h.cancelCalls) :
    r.Advances (before.length + 1) m rest t h h' := by
  cases hs with
  | listening l hf => exact Listening.advances hf ht hfind hstep
  | matched s hf => exact Matched.advances hf ht hr hstep hstays
  | calling clock holding hrest =>
    rw [step?_calling] at hstep
    obtain ⟨rfl, hnext⟩ := Option.ite_none_right_eq_some.1 hstep
    cases hnext
    exact advances_calling hrest
  | opening clock holding hrest =>
    rw [step?_opening] at hstep
    obtain ⟨rfl, hnext⟩ := Option.ite_none_right_eq_some.1 hstep
    cases hnext
    exact advances_opening hrest

/-! The replay goes on. -/

/-- What is left to do, in messages to be published, in steps and in cancels to be confirmed. The step
that asks for a cancel makes up for its confirmation. -/
def ahead (r : Replay) (rest : List String) (h : Harness Json) : Nat :=
  2 * (h.work r.setup + Harness.total (fun w => toAwait w.stage) h.waits +
    Harness.total (fun x => Harness.deliveryWork r.setup 1 ⟨0, Utf8.encode x⟩ + 1) rest) +
    h.broker.held.length

theorem ahead_listening (l : Listening) : r.ahead rest (l.harness r) =
    2 * (Harness.WaitStage.work l.stage +
      (1 + Harness.total (Harness.deliveryWork r.setup 1) l.inbound) + toAwait l.stage +
      Harness.total (fun x => Harness.deliveryWork r.setup 1 ⟨0, Utf8.encode x⟩ + 1) rest) +
      l.broker.held.length := rfl

theorem ahead_matched (s : Matched) : r.ahead rest (s.harness r) =
    2 * (Harness.WaitStage.work s.stage + (Harness.Stage.work s.consumer.stage +
      Harness.total (Harness.deliveryWork r.setup 1) s.consumer.inbound) +
      Harness.ClaimStage.work (r.callback s.message).length s.claim + toAwait s.stage +
      Harness.total (fun x => Harness.deliveryWork r.setup 1 ⟨0, Utf8.encode x⟩ + 1) rest) +
      s.broker.held.length := rfl

theorem total_concat {α : Type} {work : α → Nat} {xs : List α} {x : α} :
    Harness.total work (xs ++ [x]) = Harness.total work xs + work x := by
  induction xs with
  | nil => exact Nat.add_comm _ _
  | cons y ys ih =>
    rw [List.cons_append, Harness.total, Harness.total, ih, Nat.add_assoc]

theorem work_published {inbound : List Delivery} {tag : Nat} (r : Replay) (line : String) :
    Harness.total (Harness.deliveryWork r.setup 1) (inbound ++ [⟨tag, Utf8.encode line⟩]) =
      Harness.total (Harness.deliveryWork r.setup 1) inbound +
        Harness.deliveryWork r.setup 1 ⟨0, Utf8.encode line⟩ := total_concat

theorem ahead_published_listening {l : Listening} :
    r.ahead rest ((l.published (Utf8.encode line)).harness r) <
      r.ahead (line :: rest) (l.harness r) := by
  rw [ahead_listening, ahead_listening, Listening.published, work_published, Harness.total]
  dsimp only [Broker.delivered]
  omega

theorem ahead_published_matched {s : Matched} :
    r.ahead rest ((s.published (Utf8.encode line)).harness r) <
      r.ahead (line :: rest) (s.harness r) := by
  rw [ahead_matched, ahead_matched, Matched.published, work_published, Harness.total]
  dsimp only [Broker.delivered]
  omega

/-- A line is published to a caller that was told that its wait is registered. -/
theorem Scene.publish {reply : BrokerReply} (hs : r.Scene k m (line :: rest) h)
    (htold : (0, .registered) ∈ h.notices)
    (ha : h.act? r.setup (.publish (Utf8.encode line)) = some (h', reply)) :
    r.Scene k m rest h' ∧ r.ahead rest h' < r.ahead (line :: rest) h := by
  cases hs with
  | calling | opening => cases htold
  | listening l hf =>
    obtain ⟨reply', hpublished⟩ := Listening.act?_publish hf.attached.consumers (Utf8.encode line)
    rw [hpublished] at ha
    cases ha
    exact ⟨.listening _ (hf.published (hf.caller.registered_of_told htold)),
      ahead_published_listening⟩
  | matched s hf =>
    obtain ⟨reply', hpublished⟩ := Matched.act?_publish hf.attached.consumers (Utf8.encode line)
    rw [hpublished] at ha
    cases ha
    exact ⟨.matched _ hf.published, ahead_published_matched⟩

/-- Only a caller whose wait is registered begins to await its outcome. -/
theorem registered_of_await {reply : BrokerReply} {w : Wait Json} (hw : h.waits[0]? = some w)
    (ha : h.act? r.setup (.await 0) = some (h', reply)) : w.stage = .registered := by
  obtain ⟨h₁, hawait, _⟩ := Option.map_eq_some_iff.1 ha
  obtain ⟨w', _, hw', hs, _⟩ := Harness.awaits_of_await hawait
  exact Option.some.inj (hw.symm.trans hw') ▸ hs

/-- The caller begins to await its outcome. -/
theorem Scene.await {reply : BrokerReply} (hs : r.Scene k m [] h)
    (ha : h.act? r.setup (.await 0) = some (h', reply)) :
    r.Scene k m [] h' ∧ r.ahead [] h' < r.ahead [] h := by
  cases hs with
  | calling | opening => cases ha
  | listening l hf =>
    have hstage : l.stage = .registered := registered_of_await rfl ha
    rw [Listening.act?_await hstage] at ha
    cases ha
    refine ⟨.listening _ (hf.restage (fun _ hd => by cases hd) (.awaited rfl rfl)), ?_⟩
    rw [ahead_listening, ahead_listening, hstage]
    simp only [Harness.WaitStage.work, toAwait]
    omega
  | matched s hf =>
    have hstage : s.stage = .registered := registered_of_await rfl ha
    rw [Matched.act?_await hstage] at ha
    cases ha
    refine ⟨.matched _ (hf.restage (.awaited rfl rfl)), ?_⟩
    rw [ahead_matched, ahead_matched, hstage]
    simp only [Harness.WaitStage.work, toAwait]
    omega

/-- The broker confirms the cancel of the consumer. -/
theorem Scene.confirm {reply : BrokerReply} (hs : r.Scene k m rest h)
    (hr : Harness.ReachableAlone r.setup h) (hheld : h.broker.held ≠ [])
    (ha : h.act? r.setup .release = some (h', reply)) :
    r.Scene k m rest h' ∧ r.ahead rest h' < r.ahead rest h := by
  cases hs with
  | calling | opening => exact (hheld rfl).elim
  | listening l hf => exact (hheld hf.attached.held).elim
  | matched s hf =>
    cases hf.place with
    | staying _ _ _ _ hattached => exact (hheld hattached.held).elim
    | left _ _ _ hd => exact (hheld hd.held).elim
    | leaving hrest hstage hlife htag hasked =>
      subst hrest
      obtain ⟨b, hb, hissued⟩ := @Matched.rejects _ _ s.released hr rfl rfl
      have hone : s.broker.held = [⟨s.consumer.consumer, r.settings.priority.toInt, 0⟩] := by
        rw [htag]
        exact hasked.held
      rw [Matched.act?_release hlife hone hissued] at ha
      cases ha
      refine ⟨.matched _ (Matched.fits_departed hf htag hstage hasked hb), ?_⟩
      rw [ahead_matched, ahead_matched]
      change _ + b.held.length < _ + s.broker.held.length
      rw [hb.held, hone]
      exact Nat.lt_succ_self _

/-- The broker holds back the confirmation of cancels from now on. -/
theorem Scene.slow {reply : BrokerReply} (hs : r.Scene k m rest h)
    (ha : h.act? r.setup .hold = some (h', reply)) : r.Scene k m rest h' := by
  cases ha
  cases hs with
  | calling clock _ hrest => exact .calling clock true hrest
  | opening clock _ hrest => exact .opening clock true hrest
  | listening l hf =>
    obtain ⟨handed, queue, hh⟩ := hf.holds
    exact .listening { l with broker := l.broker.hold } {
      early := ⟨hf.early.awaiting, hf.early.routing⟩
      holds := ⟨handed, queue, hh.congr rfl rfl⟩
      caller := hf.caller.congr rfl rfl
      waiter := hf.waiter
      attached := ⟨hf.attached.consumers, hf.attached.held, hf.attached.confirmed,
        hf.attached.operations⟩
      untouched := hf.untouched }
  | matched s hf =>
    exact .matched { s with broker := s.broker.hold } {
      tag := hf.tag
      message := hf.message
      taken := hf.taken
      count := hf.count
      backlog := hf.backlog
      progress := hf.progress.congr rfl rfl rfl rfl rfl
      place := hf.place.congr rfl rfl rfl rfl rfl
      caller := hf.caller.congr rfl rfl rfl rfl (fun ho => ho) fun hclaim => hclaim }

/-- A millisecond passes without any timer becoming due. -/
theorem Scene.tick (hs : r.Scene k m rest h)
    (hi : ({ h with clock := h.clock + 1 } : Harness Json).InTime) :
    r.Scene k m rest { h with clock := h.clock + 1 } := by
  cases hs with
  | calling clock holding hrest => exact .calling (clock + 1) holding hrest
  | opening clock holding hrest => exact .opening (clock + 1) holding hrest
  | listening l hf =>
    refine .listening { l with clock := l.clock + 1 } { hf with
      early := ⟨fun deadline hd => ?_, fun deadline hd => ?_⟩
      holds := ?_
      caller := ?_ }
    · exact hi.waits _ (List.mem_singleton_self _) rfl deadline hd
    · exact hi.generations _ (List.mem_singleton_self _) rfl deadline (congrArg Stage.routing hd)
    · obtain ⟨handed, queue, hh⟩ := hf.holds
      exact ⟨handed, queue, hh.congr rfl rfl⟩
    · exact hf.caller.congr rfl rfl
  | matched s hf =>
    refine .matched { s with clock := s.clock + 1 } { hf with
      progress := hf.progress.congr rfl rfl rfl rfl rfl
      place := hf.place.congr rfl rfl rfl rfl rfl
      caller := ?_ }
    cases hf.caller with
    | registered hs => exact .registered hs
    | awaited hrest hs => exact .awaited hrest hs
    | awaiting deadline hrest hs _ =>
      refine .awaiting deadline hrest hs fun ho => ?_
      exact hi.waits _ (List.mem_singleton_self _) ho deadline hs
    | ended hrest hs hclaim => exact .ended hrest hs hclaim

/-- Whatever comes next, the replay stands where it is to stand, and less is left to do. -/
theorem Moves.scene (hm : r.Moves (rest, h) (rest', h'))
    (hs : r.Scene (before.length + 1) m rest h) (ht : 0 < r.setup.timeout)
    (hfind : r.Finds before line behind m) (hr : Harness.ReachableAlone r.setup h) :
    r.Scene (before.length + 1) m rest' h' ∧ r.ahead rest' h' < r.ahead rest h := by
  cases hm with
  | published htold ha => exact hs.publish htold ha
  | awaited ha => exact hs.await ha
  | confirmed hheld ha => exact hs.confirm hr hheld ha
  | stepped t hstep hstays =>
    have hadvances := hs.advances ht hfind hr hstep hstays
    refine ⟨hadvances.scene, ?_⟩
    have hworks := hadvances.works
    have hawaits := hadvances.awaits
    have hholds := hadvances.holds
    rw [ahead, ahead]
    omega

theorem Underway.scene (hu : r.Underway rest h) (ht : 0 < r.setup.timeout)
    (hfind : r.Finds before line behind m) : r.Scene (before.length + 1) m rest h := by
  induction hu with
  | called ha =>
    cases ha
    exact .calling 0 false rfl
  | slowed _ ha ih => exact ih.slow ha
  | moved hu hm ih => exact (hm.scene ih ht hfind hu.reachable).1
  | ticked _ hi ih => exact ih.tick hi

/-- The replay comes to an end, in whatever order it goes on. -/
theorem Underway.acc (hu : r.Underway rest h) (ht : 0 < r.setup.timeout)
    (hfind : r.Finds before line behind m) : Acc (fun y x => r.Moves x y) (rest, h) := by
  induction hn : r.ahead rest h using Nat.strong_induction_on generalizing rest h with
  | _ n ih =>
    constructor
    rintro ⟨rest', h'⟩ hm
    have hless := (hm.scene (hu.scene ht hfind) ht hfind hu.reachable).2
    exact ih _ (hn ▸ hless) (hu.moved hm) rfl

end Replay
end CommandLine
end Intercept
