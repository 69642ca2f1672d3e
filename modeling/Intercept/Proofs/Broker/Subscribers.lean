import Intercept.Proofs.Broker.Calls

/-! The consumers of a broker: whom a call attaches, whom it takes out, and what it tells them. -/
namespace Intercept

/-- The part of a broker that its consumers have to do with. -/
structure Subscribers where
  consumers : List (Consumer String)
  held : List (Consumer String)
  holding : Bool
  disposed : Bool
  /-- The number of cancels whose confirmation is logged. -/
  logged : Nat
  confirmed : Nat
  events : List (String × ConsumerEvent)

/-- What the consumer of that name is told in some events. -/
def toldIn (events : List (String × ConsumerEvent)) (name : String) : List ConsumerEvent :=
  (events.filter (·.1 = name)).map (·.2)

/-- The name under which a call asks to attach a consumer. -/
def BrokerCall.joining : BrokerCall → Option String
  | start _ _ name => some name
  | _ => none

/-- Whether confirmations are held back from this call on, if it says anything about that. -/
def BrokerCall.holdsBack : BrokerCall → Option Bool
  | hold => some true
  | release => some false
  | _ => none

/-- Whether confirmations are held back after some calls: the last call that says so decides. -/
def heldBack (calls : List BrokerCall) : Bool := (calls.filterMap (·.holdsBack)).getLast?.getD false

/-- Whether the held confirmations are released before the channel is. -/
def releases : List BrokerCall → Bool
  | [] => false
  | .release :: _ => true
  | .dispose :: _ => false
  | _ :: rest => releases rest

theorem toldIn_append {events more : List (String × ConsumerEvent)} {name : String} :
    toldIn (events ++ more) name = toldIn events name ++ toldIn more name := by
  simp [toldIn]

theorem mem_toldIn {events : List (String × ConsumerEvent)} {name : String} {event : ConsumerEvent} :
    event ∈ toldIn events name ↔ (name, event) ∈ events := by
  simp [toldIn]

theorem toldIn_eq_nil {events : List (String × ConsumerEvent)} {name : String}
    (h : ∀ n ∈ events, n.1 ≠ name) : toldIn events name = [] := by
  simp only [toldIn, List.map_eq_nil_iff, List.filter_eq_nil_iff, decide_eq_true_eq]
  exact h

namespace Subscribers
variable {s s' : Subscribers} {call : BrokerCall} {names : List String} {name : String}
  {c : Consumer String}

/-- What the consumer of that name was told. -/
def told (s : Subscribers) (name : String) : List ConsumerEvent := toldIn s.events name

/-- What a call does. -/
inductive Shift (s : Subscribers) : BrokerCall → Subscribers → Prop
  /-- The attached consumers are told of deliveries or of a failure, if of anything. -/
  | told (call : BrokerCall) (more : List (String × ConsumerEvent)) :
    (∀ n ∈ more, n.2.isCancel = false ∧ ∃ c ∈ s.consumers, c.sink = n.1) → call.holdsBack = none →
    (call = .dispose → s.disposed = true) → Shift s call { s with events := s.events ++ more }
  | joined (tag : String) (priority : Int) (name : String) : s.disposed = false →
    Shift s (.start tag priority name)
      { s with consumers := s.consumers ++ [⟨tag, priority, name⟩] }
  | parted (tag : String) (c : Consumer String) (rest : List (Consumer String)) :
    s.disposed = false → Broker.Earliest tag s.consumers rest c → s.holding = true →
    Shift s (.cancel tag) { s with consumers := rest, held := s.held ++ [c] }
  | confirmed (tag : String) (c : Consumer String) (rest : List (Consumer String)) :
    s.disposed = false → Broker.Earliest tag s.consumers rest c → s.holding = false →
    Shift s (.cancel tag) { s with
      consumers := rest
      logged := s.logged + 1
      confirmed := s.confirmed + 1
      events := s.events ++ [(c.sink, .cancelled)] }
  | held : Shift s .hold { s with holding := true }
  | released : Shift s .release { s with
      holding := false
      held := []
      logged := s.logged + s.held.length
      confirmed := s.confirmed + s.held.length
      events := s.events ++ s.held.map fun c => (c.sink, .cancelled) }
  | disposed : s.disposed = false →
    Shift s .dispose { s with disposed := true, consumers := [], held := [] }

/-- Confirmations are held back only while they are to be, the released channel has no consumers, and
each confirmation is logged, counted and told. -/
structure Sound (s : Subscribers) : Prop where
  unheld : s.holding = false → s.held = []
  released : s.disposed = true → s.consumers = [] ∧ s.held = []
  logged : s.logged = s.confirmed
  counted : s.events.countP (·.2.isCancel) = s.confirmed

theorem Sound.shift (hi : s.Sound) (hs : s.Shift call s') : s'.Sound := by
  obtain ⟨hunheld, hreleased, hlogged, hcounted⟩ := hi
  cases hs with
  | told _ more hmore _ _ =>
    refine ⟨hunheld, hreleased, hlogged, ?_⟩
    have hnone : more.countP (·.2.isCancel) = 0 := by
      simp only [List.countP_eq_zero, Bool.not_eq_true]
      exact fun n hn => (hmore n hn).1
    simp only [List.countP_append]
    omega
  | joined _ _ _ hopen => exact ⟨hunheld, by simp [hopen], hlogged, hcounted⟩
  | parted _ c rest hopen _ hholding =>
    exact ⟨by simp [hholding], by simp [hopen], hlogged, hcounted⟩
  | confirmed _ c rest hopen _ hholding =>
    refine ⟨hunheld, by simp [hopen], by simp [hlogged], ?_⟩
    simp [hcounted]
  | held => exact ⟨nofun, hreleased, hlogged, hcounted⟩
  | released =>
    refine ⟨fun _ => rfl, fun hd => ⟨(hreleased hd).1, rfl⟩, by simp [hlogged], ?_⟩
    simp [hcounted, Function.comp_def]
  | disposed _ => exact ⟨fun _ => rfl, fun _ => ⟨rfl, rfl⟩, hlogged, hcounted⟩

/-- Confirmations are held back as the call says, and else as before. -/
theorem Shift.holding (hs : s.Shift call s') : s'.holding = call.holdsBack.getD s.holding := by
  cases hs with
  | told _ _ _ hcall _ => rw [hcall, Option.getD_none]
  | joined _ _ _ _ | parted _ _ _ _ _ _ | confirmed _ _ _ _ _ _ | held | released | disposed _ => rfl

/-- Who has been there under which name. A consumer that is attached, or whose confirmation is held
back, was not told of a confirmation, and nothing is told after one. -/
structure Roster (s : Subscribers) (names : List String) : Prop where
  apart : ((s.consumers ++ s.held).map (·.sink)).Nodup
  known : ∀ c ∈ s.consumers ++ s.held, c.sink ∈ names
  inTurn : (s.consumers.map (·.sink)).Sublist names
  waiting : ∀ c ∈ s.consumers ++ s.held, ∀ event ∈ s.told c.sink, event.isCancel = false
  unknown : ∀ name, name ∉ names → s.told name = []
  last : ∀ name, (s.told name).Pairwise fun event _ => event.isCancel = false

theorem Roster.extend (hi : s.Roster names) (more : List String) : s.Roster (names ++ more) where
  apart := hi.apart
  known := fun c hc => List.mem_append_left _ (hi.known c hc)
  inTurn := hi.inTurn.trans (List.sublist_append_left _ _)
  waiting := hi.waiting
  unknown := fun name hname => hi.unknown name fun hmem => hname (List.mem_append_left _ hmem)
  last := hi.last

/-- The attached consumers are told of something else than a confirmation. -/
theorem Roster.tell {more : List (String × ConsumerEvent)} (hi : s.Roster names)
    (hmore : ∀ n ∈ more, n.2.isCancel = false ∧ ∃ c ∈ s.consumers, c.sink = n.1) :
    ({ s with events := s.events ++ more } : Subscribers).Roster names := by
  have hplain : ∀ name, ∀ event ∈ toldIn more name, event.isCancel = false :=
    fun name event hevent => (hmore _ (mem_toldIn.1 hevent)).1
  refine ⟨hi.apart, hi.known, hi.inTurn, fun c hc event hevent => ?_, fun name hname => ?_,
    fun name => ?_⟩
  · rw [told, toldIn_append] at hevent
    exact (List.mem_append.1 hevent).elim (hi.waiting c hc event) (hplain _ event)
  · have hnobody : toldIn more name = [] := by
      apply toldIn_eq_nil
      rintro n hn rfl
      obtain ⟨_, c, hc, hsink⟩ := hmore n hn
      exact hname (hsink ▸ hi.known c (List.mem_append_left _ hc))
    rw [told, toldIn_append, hnobody, List.append_nil]
    exact hi.unknown name hname
  · rw [told, toldIn_append, List.pairwise_append]
    refine ⟨hi.last name, ?_, fun event hevent later hlater => ?_⟩
    · exact List.pairwise_of_forall_mem_list fun event hevent _ _ => hplain name event hevent
    · obtain ⟨_, c, hc, hsink⟩ := hmore _ (mem_toldIn.1 hlater)
      exact hi.waiting c (List.mem_append_left _ hc) event (by rwa [hsink])

/-- A consumer is attached under a new name. -/
theorem Roster.join (hi : s.Roster names) (hnew : c.sink ∉ names) :
    ({ s with consumers := s.consumers ++ [c] } : Subscribers).Roster (names ++ [c.sink]) := by
  have hperm : (s.consumers ++ [c] ++ s.held).Perm (c :: (s.consumers ++ s.held)) := by
    rw [List.append_assoc]
    exact List.perm_middle
  refine ⟨?_, fun d hd => ?_, ?_, fun d hd => ?_, fun name hname => ?_, hi.last⟩
  · refine ((hperm.map _).nodup_iff).2 (List.nodup_cons.2 ⟨fun hmem => ?_, hi.apart⟩)
    obtain ⟨d, hd, hsink⟩ := List.mem_map.1 hmem
    exact hnew (by simpa [← hsink] using hi.known d hd)
  · rcases List.mem_cons.1 (hperm.mem_iff.1 hd) with rfl | hd
    · simp
    · exact List.mem_append_left _ (hi.known d hd)
  · rw [List.map_append]
    exact hi.inTurn.append_right _
  · rcases List.mem_cons.1 (hperm.mem_iff.1 hd) with rfl | hd
    · intro event hevent
      change event ∈ s.told d.sink at hevent
      rw [hi.unknown d.sink hnew] at hevent
      cases hevent
    · exact hi.waiting d hd
  · exact hi.unknown name fun hmem => hname (List.mem_append_left _ hmem)

/-- What those are told whose cancels are confirmed. -/
theorem toldIn_cancelled {gone : List (Consumer String)} (hn : (gone.map (·.sink)).Nodup) :
    toldIn (gone.map fun c => (c.sink, .cancelled)) name =
      if name ∈ gone.map (·.sink) then [.cancelled] else [] := by
  induction gone with
  | nil => rfl
  | cons c rest ih =>
    obtain ⟨hc, hrest⟩ := List.nodup_cons.1 hn
    have htail := ih hrest
    simp only [toldIn, List.map_cons, List.filter_cons, List.mem_cons] at htail ⊢
    by_cases hname : c.sink = name
    · subst hname
      rw [if_neg hc] at htail
      simp [htail]
    · simp only [hname, Ne.symm hname, decide_false, Bool.false_eq_true, if_false, false_or]
      exact htail

/-- Consumers leave. Some of them are told so, and others are not. -/
theorem Roster.leave (hi : s.Roster names) (gone lost : List (Consumer String))
    (hperm : (s.consumers ++ s.held).Perm (gone ++ lost ++ (s'.consumers ++ s'.held)))
    (hconsumers : s'.consumers.Sublist s.consumers)
    (hevents : s'.events = s.events ++ gone.map fun c => (c.sink, .cancelled)) :
    s'.Roster names := by
  have hmem : ∀ c, c ∈ gone ∨ c ∈ s'.consumers ++ s'.held → c ∈ s.consumers ++ s.held := by
    intro c hc
    refine hperm.mem_iff.2 ?_
    rcases hc with hc | hc
    · exact List.mem_append_left _ (List.mem_append_left _ hc)
    · exact List.mem_append_right _ hc
  have hnodup := ((hperm.map (·.sink)).nodup_iff).1 hi.apart
  rw [List.map_append, List.map_append, List.nodup_append] at hnodup
  obtain ⟨hout, hin, happart⟩ := hnodup
  have hgone := (List.nodup_append.1 hout).1
  have htold : ∀ name, s'.told name = s.told name ++
      if name ∈ gone.map (·.sink) then [.cancelled] else [] := by
    intro name
    rw [told, hevents, toldIn_append, toldIn_cancelled hgone, told]
  have hwaiting : ∀ name, name ∈ gone.map (·.sink) → ∀ event ∈ s.told name, event.isCancel = false := by
    intro name hname
    obtain ⟨c, hc, rfl⟩ := List.mem_map.1 hname
    exact hi.waiting c (hmem c (.inl hc))
  refine ⟨hin, fun c hc => hi.known c (hmem c (.inr hc)), (hconsumers.map _).trans hi.inTurn,
    fun c hc => ?_, fun name hname => ?_, fun name => ?_⟩
  · have hstays : c.sink ∉ gone.map (·.sink) := fun hleaves =>
      happart c.sink (List.mem_append_left _ hleaves) c.sink (List.mem_map_of_mem hc) rfl
    rw [htold, if_neg hstays, List.append_nil]
    exact hi.waiting c (hmem c (.inr hc))
  · have hstranger : name ∉ gone.map (·.sink) := fun hleaves => by
      obtain ⟨c, hc, rfl⟩ := List.mem_map.1 hleaves
      exact hname (hi.known c (hmem c (.inl hc)))
    rw [htold, if_neg hstranger, List.append_nil]
    exact hi.unknown name hname
  · rw [htold]
    split
    · next hname =>
      refine List.pairwise_append.2 ⟨hi.last name, List.pairwise_singleton _ _, fun event hevent _ _ => ?_⟩
      exact hwaiting name hname event hevent
    · rw [List.append_nil]
      exact hi.last name

theorem Roster.shift (hi : s.Roster names) (hs : s.Shift call s')
    (hnew : ∀ name, call.joining = some name → name ∉ names) :
    s'.Roster (names ++ call.joining.toList) := by
  cases hs with
  | told _ more hmore _ _ => exact (hi.tell hmore).extend _
  | joined tag priority name _ => exact hi.join (c := ⟨tag, priority, name⟩) (hnew name rfl)
  | parted tag c rest _ hearliest _ =>
    refine Roster.extend (hi.leave [] [] ?_ hearliest.sublist (by simp)) _
    calc s.consumers ++ s.held
      _ |>.Perm (c :: rest ++ s.held) := hearliest.perm.append_right _
      _ |>.Perm (rest ++ (s.held ++ [c])) := by
        rw [← List.append_assoc]
        exact (List.perm_append_singleton c _).symm
  | confirmed tag c rest _ hearliest _ =>
    exact Roster.extend (hi.leave [c] [] (hearliest.perm.append_right _) hearliest.sublist rfl) _
  | held =>
    exact @Roster.extend { s with holding := true } names
      ⟨hi.apart, hi.known, hi.inTurn, hi.waiting, hi.unknown, hi.last⟩ _
  | released =>
    refine Roster.extend (hi.leave s.held [] ?_ ?_ ?_) _
    · simpa using List.perm_append_comm
    · exact .refl _
    · rfl
  | disposed _ =>
    refine Roster.extend (hi.leave [] (s.consumers ++ s.held) ?_ ?_ ?_) _
    · simp
    · simp
    · simp

end Subscribers

namespace RecordedBroker
variable {r r' : RecordedBroker} {call : BrokerCall} {body : Body} {bodies : List Body}

/-- The part that its consumers have to do with. -/
def subscribers (r : RecordedBroker) : Subscribers where
  consumers := r.broker.consumers
  held := r.broker.held
  holding := r.broker.holding
  disposed := r.broker.disposed
  logged := r.broker.operations.countP (·.isConfirmation)
  confirmed := r.broker.confirmed
  events := r.events

/-- Each delivery is told to the foremost consumer. -/
theorem subscribers_publishes {reply : Option Nat} (hp : r.Publishes body r' reply) :
    ∃ more, r'.subscribers = { r.subscribers with events := r.events ++ more } ∧
      ∀ n ∈ more, n.2.isCancel = false ∧ ∃ c ∈ r.broker.consumers, c.sink = n.1 := by
  cases hp with
  | stored _ => exact ⟨[], by simp [subscribers], nofun⟩
  | delivered c hc =>
    obtain ⟨before, behind, hconsumers, _⟩ := hc
    refine ⟨_, rfl, fun n hn => ?_⟩
    obtain rfl := List.mem_singleton.1 hn
    exact ⟨rfl, c, by simp [hconsumers], rfl⟩

theorem subscribers_publishAll : ∃ more,
    (r.after (bodies.map .publish)).subscribers =
      { r.subscribers with events := r.events ++ more } ∧
      ∀ n ∈ more, n.2.isCancel = false ∧ ∃ c ∈ r.broker.consumers, c.sink = n.1 := by
  induction bodies generalizing r with
  | nil => exact ⟨[], by simp [subscribers], nofun⟩
  | cons body rest ih =>
    obtain ⟨first, hfirst, htold⟩ := subscribers_publishes (publishes_publish r body)
    obtain ⟨more, hmore, hrest⟩ := @ih (r.publish body).1
    have hevents : (r.publish body).1.events = r.events ++ first := congrArg Subscribers.events hfirst
    have hconsumers : (r.publish body).1.broker.consumers = r.broker.consumers :=
      congrArg Subscribers.consumers hfirst
    rw [hconsumers] at hrest
    refine ⟨first ++ more, ?_, fun n hn => ?_⟩
    · simp [hmore, hfirst, hevents]
    · exact (List.mem_append.1 hn).elim (htold n) (hrest n)

/-- A call that tells nobody of anything, and leaves the consumers as they are. -/
theorem shift_of_same (hs : r'.subscribers = r.subscribers) (hcall : call.holdsBack = none)
    (hdispose : call = .dispose → r.broker.disposed = true) :
    r.subscribers.Shift call r'.subscribers := by
  have hshift := Subscribers.Shift.told (s := r.subscribers) call [] nofun hcall hdispose
  rw [hs]
  simpa using hshift

theorem subscribers_of_fails {b : Broker String} {e : BrokerError} (hf : r.broker.Fails b e) :
    ({ r with broker := b } : RecordedBroker).subscribers = r.subscribers := by
  cases hf with
  | closed _ => rfl
  | refused op v _ hop => simp [subscribers, hop]

theorem subscribers_of_error {e : BrokerError} (he : (r.apply call).2 = .result (.error e)) :
    (r.apply call).1.subscribers = r.subscribers := by
  obtain ⟨b, hb, hfails⟩ := fails_apply he
  rw [hb]
  exact subscribers_of_fails hfails

theorem shift_cancel {tag : String} :
    r.subscribers.Shift (.cancel tag) (r.apply (.cancel tag)).1.subscribers := by
  have hcancels := cancels_apply r tag
  generalize (r.apply (.cancel tag)).1 = r', (r.apply (.cancel tag)).2 = reply at hcancels
  cases hcancels with
  | failed b e hf => exact shift_of_same (subscribers_of_fails hf) rfl nofun
  | held c rest hopen hearliest hholding =>
    have hshift := Subscribers.Shift.parted (s := r.subscribers) tag c rest hopen hearliest hholding
    simpa [subscribers, Operation.isConfirmation] using hshift
  | confirmed c rest hopen hearliest hholding =>
    have hshift := Subscribers.Shift.confirmed (s := r.subscribers) tag c rest hopen hearliest hholding
    simpa [subscribers, Operation.isConfirmation] using hshift

/-- What a call does to the consumers. -/
theorem shift_apply (r : RecordedBroker) (call : BrokerCall) :
    r.subscribers.Shift call (r.apply call).1.subscribers := by
  cases call with
  | start tag priority name =>
    cases hd : r.broker.disposed with
    | true =>
      refine shift_of_same (subscribers_of_error (e := .closed) ?_) rfl (by simp)
      simp [apply, Broker.start_of_disposed hd]
    | false =>
      have hshift := Subscribers.Shift.joined (s := r.subscribers) tag priority name hd
      simpa [subscribers, apply, Broker.start_of_open hd, Broker.record, Operation.isConfirmation]
        using hshift
  | publish body =>
    obtain ⟨more, hmore, htold⟩ := subscribers_publishes (publishes_publish r body)
    rw [apply_publish, hmore]
    exact .told _ more htold rfl (by simp)
  | publishAll bodies =>
    obtain ⟨more, hmore, htold⟩ := @subscribers_publishAll r bodies
    rw [apply_publishAll, hmore]
    exact .told _ more htold rfl (by simp)
  | publishValue encoded =>
    obtain ⟨more, hmore, htold⟩ := @subscribers_publishAll r encoded.toList
    rw [apply_publishValue, hmore]
    exact .told _ more htold rfl (by simp)
  | ack t =>
    refine shift_of_same ?_ rfl (by simp)
    cases ho : (r.broker.ack t).2 with
    | ok _ =>
      obtain ⟨hopen, ht⟩ := Broker.ack_ok_iff.1 ho
      simp [subscribers, apply, Broker.ack_eq hopen ht, Broker.record, Operation.isConfirmation]
    | error e => exact subscribers_of_error (congrArg BrokerReply.result ho)
  | nack t multiple =>
    refine shift_of_same ?_ rfl (by simp)
    cases ho : (r.broker.nack t multiple).2 with
    | ok _ =>
      obtain ⟨hopen, ht⟩ := Broker.nack_ok_iff.1 ho
      simp [subscribers, apply, Broker.nack_eq hopen ht, Broker.record, Operation.isConfirmation]
    | error e => exact subscribers_of_error (congrArg BrokerReply.result ho)
  | cancel tag => exact shift_cancel
  | hold => exact .held
  | release =>
    have hr : (r.apply .release).1 = r.broker.held.foldl confirm { r with broker := r.broker.release.1 } :=
      rfl
    rw [hr, foldl_confirm]
    simpa [subscribers, Broker.release, Function.comp_def, Operation.isConfirmation] using
      Subscribers.Shift.released (s := r.subscribers)
  | failConnection reason =>
    have hr : (r.apply (.failConnection reason)).1 =
        r.broker.consumers.foldl (fun r c => r.note c.sink (.failed (.connection reason))) r := rfl
    rw [hr, foldl_note]
    refine .told _ _ (fun n hn => ?_) rfl (by simp)
    obtain ⟨c, hc, rfl⟩ := List.mem_map.1 hn
    exact ⟨rfl, c, hc, rfl⟩
  | consumeBacklog count => exact shift_of_same rfl rfl (by simp)
  | dispose =>
    cases hd : r.broker.disposed with
    | true =>
      refine shift_of_same ?_ rfl fun _ => hd
      simp [apply, Broker.dispose, hd]
    | false =>
      simpa [subscribers, apply, Broker.dispose, hd, Broker.record, Operation.isConfirmation] using
        Subscribers.Shift.disposed (s := r.subscribers) hd

/-! Any number of calls. -/

theorem sound_initial : ({} : RecordedBroker).subscribers.Sound :=
  ⟨fun _ => rfl, fun _ => ⟨rfl, rfl⟩, rfl, rfl⟩

theorem sound_after (hi : r.subscribers.Sound) (calls : List BrokerCall) :
    (r.after calls).subscribers.Sound := by
  induction calls generalizing r with
  | nil => exact hi
  | cons call rest ih => exact ih (hi.shift (shift_apply r call))

/-- Whether confirmations are held back is up to the calls alone. -/
theorem holding_after (r : RecordedBroker) (calls : List BrokerCall) :
    (r.after calls).broker.holding =
      (calls.filterMap (·.holdsBack)).getLast?.getD r.broker.holding := by
  induction calls generalizing r with
  | nil => rfl
  | cons call rest ih =>
    have hfirst : (r.apply call).1.broker.holding = call.holdsBack.getD r.broker.holding :=
      (shift_apply r call).holding
    rw [after_cons, ih, hfirst]
    cases hcall : call.holdsBack with
    | none => rw [List.filterMap_cons_none hcall, Option.getD_none]
    | some held => rw [List.filterMap_cons_some hcall, List.getLast?_cons, Option.getD_some,
        Option.getD_some]

theorem roster_initial : ({} : RecordedBroker).subscribers.Roster [] :=
  ⟨.nil, nofun, .refl _, nofun, fun _ _ => rfl, fun _ => .nil⟩

theorem joining_cons {rest : List BrokerCall} : (call :: rest).filterMap (·.joining) =
    call.joining.toList ++ rest.filterMap (·.joining) := by
  cases hj : call.joining <;> simp [hj]

theorem roster_apply {names more : List String} (hi : r.subscribers.Roster names)
    (hn : (names ++ call.joining.toList ++ more).Nodup) :
    (r.apply call).1.subscribers.Roster (names ++ call.joining.toList) := by
  refine hi.shift (shift_apply r call) fun name hj hmem => ?_
  rw [hj] at hn
  have happart := (List.nodup_append.1 (List.nodup_append.1 hn).1).2.2
  exact happart name hmem name (by simp) rfl

theorem roster_after {names : List String} {calls : List BrokerCall}
    (hi : r.subscribers.Roster names) (hn : (names ++ calls.filterMap (·.joining)).Nodup) :
    (r.after calls).subscribers.Roster (names ++ calls.filterMap (·.joining)) := by
  induction calls generalizing r names with
  | nil => simpa using hi
  | cons call rest ih =>
    rw [joining_cons, ← List.append_assoc] at hn ⊢
    exact ih (roster_apply hi hn) hn

end RecordedBroker
end Intercept
