import Intercept.Proofs.Broker.Conservation

/-! What a consumer is told, from its subscription to the confirmation of its cancel. -/
namespace Intercept

/-- The consumer that a call takes out, if it is a cancel and accepted. -/
def BrokerCall.dismissed (r : RecordedBroker) (call : BrokerCall) : List (Consumer String) :=
  match call, (r.apply call).2 with
  | .cancel tag, .result (.ok ()) => (r.broker.consumers.find? (·.tag == tag)).toList
  | _, _ => []

/-- The consumers that are taken out by some calls, in the order of their cancels. -/
def RecordedBroker.dismissed (r : RecordedBroker) : List BrokerCall → List (Consumer String)
  | [] => []
  | call :: rest => call.dismissed r ++ (r.apply call).1.dismissed rest

namespace Subscribers
variable {s s' : Subscribers} {call : BrokerCall} {names : List String} {name : String}
  {c : Consumer String} {gone : List (Consumer String)}

/-- Nobody of that name is attached or waits for a confirmation. -/
def Gone (s : Subscribers) (name : String) : Prop := ∀ c ∈ s.consumers ++ s.held, c.sink ≠ name

theorem told_of_events {more : List (String × ConsumerEvent)} (he : s'.events = s.events ++ more)
    (hmore : ∀ n ∈ more, n.1 ≠ name) : s'.told name = s.told name := by
  rw [told, he, toldIn_append, toldIn_eq_nil hmore, List.append_nil, told]

theorem Gone.of_mem (hg : s.Gone name) (hc : ∀ c ∈ s'.consumers ++ s'.held, c ∈ s.consumers ++ s.held) :
    s'.Gone name :=
  fun c hmem => hg c (hc c hmem)

/-- Who is gone is told nothing any more. -/
theorem Gone.shift (hg : s.Gone name) (hs : s.Shift call s') (hj : call.joining ≠ some name) :
    s'.Gone name ∧ s'.told name = s.told name := by
  have hattached : ∀ c ∈ s.consumers, c.sink ≠ name := fun c hc => hg c (List.mem_append_left _ hc)
  have hheld : ∀ c ∈ s.held, c.sink ≠ name := fun c hc => hg c (List.mem_append_right _ hc)
  cases hs with
  | told _ more hmore _ _ =>
    refine ⟨hg, told_of_events rfl ?_⟩
    intro n hn
    obtain ⟨_, c, hc, hsink⟩ := hmore n hn
    rw [← hsink]
    exact hattached c hc
  | joined tag priority joiner _ =>
    refine ⟨fun c hc => ?_, rfl⟩
    simp only [List.mem_append, List.mem_singleton] at hc
    rcases hc with (hc | rfl) | hc
    · exact hattached c hc
    · rintro rfl
      exact hj rfl
    · exact hheld c hc
  | parted tag c rest _ hearliest _ =>
    refine ⟨hg.of_mem fun d hd => ?_, rfl⟩
    have hmem := hearliest.perm.mem_iff (a := d)
    grind
  | confirmed tag c rest _ hearliest _ =>
    refine ⟨hg.of_mem fun d hd => ?_, told_of_events rfl fun n hn => ?_⟩
    · exact ((hearliest.sublist.append_right _).mem hd)
    · obtain rfl := List.mem_singleton.1 hn
      exact hattached c (hearliest.perm.mem_iff.2 (List.mem_cons_self))
  | held => exact ⟨hg, rfl⟩
  | released =>
    refine ⟨hg.of_mem fun d hd => ?_, told_of_events rfl fun n hn => ?_⟩
    · simp only [List.append_nil] at hd
      exact List.mem_append_left _ hd
    · obtain ⟨c, hc, rfl⟩ := List.mem_map.1 hn
      exact hheld c hc
  | disposed _ => exact ⟨fun _ hc => (nomatch hc), rfl⟩

/-- What becomes of a consumer whose confirmation is held back. -/
theorem Shift.held_cases (hs : s.Shift call s') (hi : s.Roster names) (hsound : s.Sound)
    (hc : c ∈ s.held) :
    (call = .release ∧ s'.Gone c.sink ∧ s'.told c.sink = s.told c.sink ++ [.cancelled]) ∨
    (call = .dispose ∧ s'.Gone c.sink ∧ s'.told c.sink = s.told c.sink) ∨
    ((∀ rest, releases (call :: rest) = releases rest) ∧ c ∈ s'.held ∧
      s'.told c.sink = s.told c.sink) := by
  have happart := hi.apart
  rw [List.map_append, List.nodup_append] at happart
  have hattached : ∀ d ∈ s.consumers, d.sink ≠ c.sink := fun d hd =>
    happart.2.2 d.sink (List.mem_map_of_mem hd) c.sink (List.mem_map_of_mem hc)
  cases hs with
  | told _ more hmore hcall hdispose =>
    have htold : ({ s with events := s.events ++ more } : Subscribers).told c.sink = s.told c.sink := by
      refine told_of_events rfl fun n hn => ?_
      obtain ⟨_, d, hd, hsink⟩ := hmore n hn
      rw [← hsink]
      exact hattached d hd
    refine .inr (.inr ⟨fun rest => ?_, hc, htold⟩)
    cases call with
    | release => cases hcall
    | dispose =>
      rw [(hsound.released (hdispose rfl)).2] at hc
      cases hc
    | _ => rfl
  | joined tag priority name _ => exact .inr (.inr ⟨fun _ => rfl, hc, rfl⟩)
  | parted tag d rest _ _ _ => exact .inr (.inr ⟨fun _ => rfl, List.mem_append_left _ hc, rfl⟩)
  | confirmed tag d rest _ _ hholding =>
    rw [hsound.unheld hholding] at hc
    cases hc
  | held => exact .inr (.inr ⟨fun _ => rfl, hc, rfl⟩)
  | released =>
    refine .inl ⟨rfl, fun d hd => hattached d (by simpa using hd), ?_⟩
    rw [Subscribers.told, toldIn_append, toldIn_cancelled happart.2.1,
      if_pos (List.mem_map_of_mem hc), Subscribers.told]
  | disposed _ => exact .inr (.inl ⟨rfl, fun _ hd => absurd hd List.not_mem_nil, rfl⟩)

/-- The names of those whose cancels are confirmed, in this order. -/
def confirmedNames (s : Subscribers) : List String := (s.events.filter (·.2.isCancel)).map (·.1)

/-- The consumers are told of the confirmations in the order of their cancels. Who still waits when
the channel is released is lost. -/
def InOrder (s : Subscribers) (gone : List (Consumer String)) : Prop :=
  ∃ lost, gone.map (·.sink) = s.confirmedNames ++ s.held.map (·.sink) ++ lost ∧
    (s.disposed = false → lost = [])

/-- A call that is no cancel takes nobody out. -/
theorem InOrder.shift (hi : s.InOrder gone) (hs : s.Shift call s') (hcall : ∀ tag, call ≠ .cancel tag) :
    s'.InOrder gone := by
  obtain ⟨lost, hgone, hlost⟩ := hi
  cases hs with
  | told _ more hmore _ _ =>
    have hnone : more.filter (·.2.isCancel) = [] := by
      simp only [List.filter_eq_nil_iff, Bool.not_eq_true]
      exact fun n hn => (hmore n hn).1
    refine ⟨lost, ?_, hlost⟩
    simp [hgone, confirmedNames, hnone]
  | joined tag priority name _ => exact ⟨lost, hgone, hlost⟩
  | parted tag _ _ _ _ _ => exact absurd rfl (hcall tag)
  | confirmed tag _ _ _ _ _ => exact absurd rfl (hcall tag)
  | held => exact ⟨lost, hgone, hlost⟩
  | released =>
    have hall : (s.held.map fun c => (c.sink, ConsumerEvent.cancelled)).filter (·.2.isCancel) =
        s.held.map fun c => (c.sink, .cancelled) := by
      simp [List.filter_eq_self]
    refine ⟨lost, ?_, hlost⟩
    simp [hgone, confirmedNames, hall, Function.comp_def]
  | disposed hopen =>
    obtain rfl := hlost hopen
    exact ⟨s.held.map (·.sink), by simpa [confirmedNames] using hgone, nofun⟩

end Subscribers

namespace RecordedBroker
variable {r : RecordedBroker} {call : BrokerCall} {calls late : List BrokerCall}
  {names : List String} {name : String} {c : Consumer String} {gone : List (Consumer String)}

/-- What the consumer of that name was told. -/
def told (r : RecordedBroker) (name : String) : List ConsumerEvent := toldIn r.events name

theorem told_after_gone (hg : r.subscribers.Gone name) (hj : name ∉ late.filterMap (·.joining)) :
    (r.after late).told name = r.told name := by
  induction late generalizing r with
  | nil => rfl
  | cons call rest ih =>
    have hfirst : call.joining ≠ some name := fun h => hj (List.mem_filterMap.2 ⟨call, by simp, h⟩)
    have hrest : name ∉ rest.filterMap (·.joining) := fun h => by
      obtain ⟨call', hmem, h⟩ := List.mem_filterMap.1 h
      exact hj (List.mem_filterMap.2 ⟨call', List.mem_cons_of_mem _ hmem, h⟩)
    obtain ⟨hgone, htold⟩ := hg.shift (shift_apply r call) hfirst
    exact (ih hgone hrest).trans htold

/-- Who waits for a confirmation is told of it by the next release, unless the channel is released
first, and of nothing else. -/
theorem told_after_held (hi : r.subscribers.Roster names) (hsound : r.subscribers.Sound)
    (hn : (names ++ late.filterMap (·.joining)).Nodup) (hc : c ∈ r.broker.held) :
    (r.after late).told c.sink = r.told c.sink ++ if releases late then [.cancelled] else [] := by
  induction late generalizing r names with
  | nil => simp [releases]
  | cons call rest ih =>
    have hknown : c.sink ∈ names := hi.known c (List.mem_append_right _ hc)
    have hnone : c.sink ∉ (call :: rest).filterMap (·.joining) := fun h =>
      (List.nodup_append.1 hn).2.2 c.sink hknown c.sink h rfl
    rw [joining_cons, List.mem_append, not_or] at hnone
    have hshift := shift_apply r call
    rw [after_cons]
    rcases hshift.held_cases hi hsound hc with ⟨rfl, hgone, htold⟩ | ⟨rfl, hgone, htold⟩ |
      ⟨hreleases, hheld, htold⟩
    · rw [told_after_gone hgone hnone.2]
      exact htold
    · rw [told_after_gone hgone hnone.2]
      exact htold.trans (List.append_nil _).symm
    · rw [joining_cons, ← List.append_assoc] at hn
      rw [hreleases, ih (roster_apply hi hn) (hsound.shift hshift) hn hheld]
      exact congrArg (· ++ _) htold

/-- What becomes of a consumer whose cancel is accepted. -/
theorem told_of_cancel {tag : String} (hi : r.subscribers.Roster names)
    (hsound : r.subscribers.Sound) (hn : (names ++ late.filterMap (·.joining)).Nodup)
    (ho : (r.apply (.cancel tag)).2 = .result (.ok ())) :
    ∃ c rest, Broker.Earliest tag r.broker.consumers rest c ∧
      (r.apply (.cancel tag)).1.broker.consumers = rest ∧
      ((r.apply (.cancel tag)).1.after late).told c.sink = r.told c.sink ++
        if r.broker.holding = false ∨ releases late = true then [.cancelled] else [] := by
  have hroster := hi.shift (shift_apply r (.cancel tag)) nofun
  have hsound' := hsound.shift (shift_apply r (.cancel tag))
  have hcancels := cancels_apply r tag
  rw [ho] at hcancels
  generalize (r.apply (.cancel tag)).1 = r' at hcancels hroster hsound' ⊢
  cases hcancels with
  | held c rest _ hearliest hholding =>
    refine ⟨c, rest, hearliest, rfl, ?_⟩
    have hwaits : c ∈ r.broker.held ++ [c] := List.mem_append_right _ (List.mem_singleton_self c)
    rw [told_after_held hroster hsound' (by simpa [BrokerCall.joining] using hn) hwaits]
    simp [hholding, told]
  | confirmed c rest _ hearliest hholding =>
    refine ⟨c, rest, hearliest, rfl, ?_⟩
    have hattached : c ∈ r.broker.consumers := hearliest.perm.mem_iff.2 List.mem_cons_self
    have hnone : c.sink ∉ late.filterMap (·.joining) := fun h =>
      (List.nodup_append.1 hn).2.2 _ (hi.known c (List.mem_append_left _ hattached)) _ h rfl
    have hapart : ((c :: rest ++ r.broker.held).map (·.sink)).Nodup :=
      (((hearliest.perm.append_right _).map _).nodup_iff).1 hi.apart
    have hgone : ∀ d ∈ rest ++ r.broker.held, d.sink ≠ c.sink := by
      intro d hd hsink
      exact (List.nodup_cons.1 hapart).1 (by simpa [← hsink] using List.mem_map_of_mem hd)
    refine Eq.trans (told_after_gone ?_ hnone) ?_
    · exact hgone
    · simp [hholding, told, toldIn]

/-! The order of the confirmations. -/

theorem dismissed_of_other (hcall : ∀ tag, call ≠ .cancel tag) : call.dismissed r = [] := by
  cases call with
  | cancel tag => exact absurd rfl (hcall tag)
  | _ => rfl

theorem inOrder_cancel {tag : String} (hi : r.subscribers.InOrder gone) (hsound : r.subscribers.Sound) :
    (r.apply (.cancel tag)).1.subscribers.InOrder (gone ++ BrokerCall.dismissed r (.cancel tag)) := by
  have hcancels := cancels_apply r tag
  unfold BrokerCall.dismissed
  generalize (r.apply (.cancel tag)).1 = r', (r.apply (.cancel tag)).2 = reply at hcancels ⊢
  obtain ⟨lost, hgone, hlost⟩ := hi
  cases hcancels with
  | failed b e hf =>
    rw [subscribers_of_fails hf]
    exact ⟨lost, by simpa using hgone, hlost⟩
  | held c rest hopen hearliest _ =>
    obtain rfl := hlost hopen
    refine ⟨[], ?_, fun _ => rfl⟩
    simp [hearliest.find?, hgone, subscribers, Subscribers.confirmedNames]
  | confirmed c rest hopen hearliest hholding =>
    obtain rfl := hlost hopen
    have hheld : r.broker.held = [] := hsound.unheld hholding
    refine ⟨[], ?_, fun _ => rfl⟩
    simp [hearliest.find?, hgone, subscribers, Subscribers.confirmedNames, hheld]
    rfl

theorem inOrder_apply (hi : r.subscribers.InOrder gone) (hsound : r.subscribers.Sound)
    (call : BrokerCall) : (r.apply call).1.subscribers.InOrder (gone ++ call.dismissed r) := by
  by_cases hcall : ∀ tag, call ≠ .cancel tag
  · rw [dismissed_of_other hcall, List.append_nil]
    exact hi.shift (shift_apply r call) hcall
  · simp only [ne_eq, Classical.not_forall, Classical.not_not] at hcall
    obtain ⟨tag, rfl⟩ := hcall
    exact inOrder_cancel hi hsound

theorem inOrder_initial : ({} : RecordedBroker).subscribers.InOrder [] := ⟨[], rfl, fun _ => rfl⟩

theorem inOrder_after (hi : r.subscribers.InOrder gone) (hsound : r.subscribers.Sound)
    (calls : List BrokerCall) : (r.after calls).subscribers.InOrder (gone ++ r.dismissed calls) := by
  induction calls generalizing r gone with
  | nil => simpa [dismissed] using hi
  | cons call rest ih =>
    rw [dismissed, ← List.append_assoc]
    exact ih (inOrder_apply hi hsound call) (hsound.shift (shift_apply r call))

/-- A subscription from its start to the confirmation of its cancel, if each has its own name. The
deliveries come in the order of their tags, each to the foremost consumer that is attached, and what
is published while nobody is attached goes to the backlog. After the confirmation of its cancel a
consumer is told nothing. An accepted cancel takes out the earliest consumer with that tag, which is
then told nothing but the confirmation: by the next release if confirmations are held back since an
earlier call, unless the channel is released before that, and else at once. The confirmations come in the order of the
cancels, and each is logged and counted. -/
theorem callbacks_follow_subscriptions (hr : ({} : RecordedBroker).after calls = r)
    (hnames : (calls.filterMap (·.joining)).Nodup) :
    (r.deliveries.map (·.1) = List.range' 1 r.broker.lastTag ∧
      (r.deliveries.map (·.2)).Sublist (calls.flatMap (·.published)) ∧
      (∀ body, r.Publishes body (r.publish body).1 (r.publish body).2) ∧
      (∀ body, (r.publish body).2 = none ↔ r.broker.consumers = []) ∧
      (∀ bodies, (r.apply (.publishAll bodies)).1 = r.after (bodies.map .publish))) ∧
    ((r.broker.consumers.map (·.sink)).Sublist (calls.filterMap (·.joining)) ∧
      (r.broker.disposed = false → ∀ tag priority name,
        (r.apply (.start tag priority name)).1.broker.consumers =
          r.broker.consumers ++ [⟨tag, priority, name⟩])) ∧
    (∀ name before after, r.told name = before ++ .cancelled :: after →
      .cancelled ∉ before ∧ after = []) ∧
    (∀ early tag late, calls = early ++ .cancel tag :: late →
      ((({} : RecordedBroker).after early).apply (.cancel tag)).2 = .result (.ok ()) →
      ∃ c rest,
        Broker.Earliest tag (({} : RecordedBroker).after early).broker.consumers rest c ∧
        (({} : RecordedBroker).after (early ++ [.cancel tag])).broker.consumers = rest ∧
        r.told c.sink = (({} : RecordedBroker).after early).told c.sink ++
          if heldBack early = false ∨ releases late = true then [.cancelled] else []) ∧
    r.subscribers.InOrder (({} : RecordedBroker).dismissed calls) ∧
    (r.broker.operations.countP (·.isConfirmation) = r.events.countP (·.2.isCancel) ∧
      ∀ count, r.reached count = true ↔ count ≤ r.events.countP (·.2.isCancel)) := by
  have hc := conserved_initial.after calls
  have hsound : r.subscribers.Sound := hr ▸ sound_after sound_initial calls
  have hroster : r.subscribers.Roster (calls.filterMap (·.joining)) :=
    hr ▸ roster_after roster_initial hnames
  have horder : r.subscribers.InOrder (({} : RecordedBroker).dismissed calls) :=
    hr ▸ inOrder_after inOrder_initial sound_initial calls
  rw [hr, List.nil_append] at hc
  refine ⟨⟨hc.received, hc.inTurn, publishes_publish r, fun body => ?_, fun _ => apply_publishAll⟩,
    ⟨hroster.inTurn, fun hopen tag priority name => ?_⟩, fun name before after hsplit => ?_, ?_,
    horder, ?_⟩
  · have hp := publishes_publish r body
    generalize (r.publish body).1 = r', (r.publish body).2 = reply at hp ⊢
    cases hp with
    | stored hnobody => simp [hnobody]
    | delivered c hforemost =>
      obtain ⟨ahead, behind, hconsumers, _⟩ := hforemost
      simp [hconsumers]
  · simp [apply, Broker.start_of_open hopen, Broker.record]
  · have hpairwise : (before ++ .cancelled :: after).Pairwise fun event _ => event.isCancel = false := by
      rw [← hsplit]
      exact hroster.last name
    obtain ⟨_, hlast, hbefore⟩ := List.pairwise_append.1 hpairwise
    refine ⟨fun hmem => ?_, List.eq_nil_iff_forall_not_mem.2 fun event hevent => ?_⟩
    · cases hbefore _ hmem _ List.mem_cons_self
    · cases (List.pairwise_cons.1 hlast).1 event hevent
  · rintro early tag late rfl ho
    have hearly : (({} : RecordedBroker).after early).subscribers.Roster
        (early.filterMap (·.joining)) := by
      rw [List.filterMap_append] at hnames
      exact roster_after roster_initial (List.nodup_append.1 hnames).1
    have hn : (early.filterMap (·.joining) ++ late.filterMap (·.joining)).Nodup := by
      simpa [BrokerCall.joining] using hnames
    have hcancel := told_of_cancel hearly (sound_after sound_initial early) hn ho
    rw [holding_after] at hcancel
    rw [after_append] at hr
    rw [after_append]
    subst hr
    exact hcancel
  · have hcount : r.events.countP (·.2.isCancel) = r.broker.confirmed := hsound.counted
    rw [hcount]
    exact ⟨hsound.logged, fun count => decide_eq_true_iff⟩

/-- Three consumers, two of them with the same tag and the same priority. The cancels of two of them
are held back. -/
def threeSubscriptions : List BrokerCall :=
  [.publish [0], .start "twin" 1 "first", .start "twin" 1 "second", .publish [1],
    .start "other" 5 "third", .publishAll [[2], [3]], .hold, .cancel "twin", .cancel "other",
    .publish [4], .cancel "other", .release, .publish [5], .cancel "twin", .dispose]

theorem three_subscriptions_confirmed :
    let r := ({} : RecordedBroker).after threeSubscriptions
    let early := threeSubscriptions.take 7
    let later := threeSubscriptions.take 13
    (threeSubscriptions.filterMap (·.joining)).Nodup ∧
    (r.told "first" = [.received 1 [1], .cancelled] ∧
      r.told "second" = [.received 4 [4], .received 5 [5], .cancelled] ∧
      r.told "third" = [.received 2 [2], .received 3 [3], .cancelled]) ∧
    (heldBack early = true ∧ ∃ c rest,
      Broker.Earliest "twin" (({} : RecordedBroker).after early).broker.consumers rest c ∧
      r.told c.sink = (({} : RecordedBroker).after early).told c.sink ++ [.cancelled]) ∧
    (heldBack later = false ∧ ∃ c rest,
      Broker.Earliest "twin" (({} : RecordedBroker).after later).broker.consumers rest c ∧
      r.told c.sink = (({} : RecordedBroker).after later).told c.sink ++ [.cancelled]) ∧
    r.subscribers.InOrder (({} : RecordedBroker).dismissed threeSubscriptions) ∧
    r.broker.operations.countP (·.isConfirmation) = r.events.countP (·.2.isCancel) := by
  have hnames : (threeSubscriptions.filterMap (·.joining)).Nodup := by decide
  obtain ⟨_, _, _, hcancel, horder, hcount, _⟩ := callbacks_follow_subscriptions rfl hnames
  obtain ⟨c, rest, hearliest, _, htold⟩ :=
    hcancel (threeSubscriptions.take 7) "twin" (threeSubscriptions.drop 8) rfl rfl
  obtain ⟨d, rest', hearliest', _, htold'⟩ :=
    hcancel (threeSubscriptions.take 13) "twin" (threeSubscriptions.drop 14) rfl rfl
  exact ⟨hnames, by decide, ⟨by decide, c, rest, hearliest, htold⟩,
    ⟨by decide, d, rest', hearliest', htold'⟩, horder, hcount⟩

end RecordedBroker
end Intercept
