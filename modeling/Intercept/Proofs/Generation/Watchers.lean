import Intercept.Proofs.Generation.History

/-! What those who wait for a signal of a consumer come to know: its first resolution, once, whether
they began to wait before it or after it. -/
namespace Intercept

/-- What happens around a consumer that others wait for. -/
inductive WatchMove where
  | operate (op : LifecycleOp)
  /-- Somebody begins to wait for a signal. -/
  | watch (id : String) (kind : SignalKind)
  /-- Some of those who wait look at their signals. -/
  | poll (polled : String → Bool)

namespace WatchMove

def operation? : WatchMove → Option LifecycleOp
  | operate op => some op
  | _ => none

/-- Under which name somebody begins to wait. -/
def newcomer? : WatchMove → Option String
  | watch id _ => some id
  | _ => none

end WatchMove

/-- The operations on the consumer. -/
def operations (moves : List WatchMove) : List LifecycleOp := moves.filterMap (·.operation?)

/-- What was told under a name. -/
def toldTo {α : Type} (id : String) (told : List (String × α)) : List α :=
  told.filterMap fun p => if p.1 = id then some p.2 else none

theorem toldTo_append {α : Type} {id : String} {told more : List (String × α)} :
    toldTo id (told ++ more) = toldTo id told ++ toldTo id more := List.filterMap_append

theorem operations_append {moves more : List WatchMove} :
    operations (moves ++ more) = operations moves ++ operations more := List.filterMap_append

namespace Watched
variable {w : Watched} {id : String} {kind : SignalKind} {polled : String → Bool}
  {m : WatchMove} {moves more : List WatchMove} {r : Except HarnessError Unit}

/-- Those who are polled look at their signals, and leave if they are told something. -/
def poll (w : Watched) (polled : String → Bool) :
    Watched × List (String × Except HarnessError Unit) :=
  ({ w with watchers := w.watchers.filter fun x => !polled x.id || (w.told x).isNone },
    (w.watchers.filter (polled ·.id)).filterMap w.told)

/-- To look is to poll everybody. -/
theorem poll_all : w.poll (fun _ => true) = w.look := by
  simp [poll, look]

def move (w : Watched) : WatchMove → Watched × List (String × Except HarnessError Unit)
  | .operate op => ((w.apply op).1, [])
  | .watch id kind => (w.watch id kind, [])
  | .poll polled => w.poll polled

/-- Where a sequence of moves leads, and what is told on the way. -/
def follow (w : Watched) : List WatchMove → Watched × List (String × Except HarnessError Unit)
  | [] => (w, [])
  | m :: moves =>
    let (next, told) := w.move m
    let (last, more) := next.follow moves
    (last, told ++ more)

theorem follow_cons : w.follow (m :: moves) =
    (((w.move m).1.follow moves).1, (w.move m).2 ++ ((w.move m).1.follow moves).2) := rfl

theorem follow_append : w.follow (moves ++ more) =
    (((w.follow moves).1.follow more).1,
      (w.follow moves).2 ++ ((w.follow moves).1.follow more).2) := by
  induction moves generalizing w with
  | nil => rfl
  | cons m moves ih => rw [List.cons_append, follow_cons, ih, follow_cons, List.append_assoc]

theorem consumer_move : (w.move m).1.consumer = w.consumer := by
  cases m <;> rfl

theorem life_move : (w.move m).1.life = w.life.after w.consumer (operations [m]) := by
  cases m <;> rfl

/-- Who waits makes no difference to the consumer. -/
theorem life_follow : (w.follow moves).1.life = w.life.after w.consumer (operations moves) := by
  induction moves generalizing w with
  | nil => rfl
  | cons m moves ih =>
    have hops : operations ([m] ++ moves) = operations [m] ++ operations moves := operations_append
    rw [List.singleton_append] at hops
    rw [follow_cons, ih, consumer_move, life_move, hops, Lifecycle.after_append]

/-! Those who wait under one name. -/

def named (w : Watched) (id : String) : List Watcher := w.watchers.filter (·.id = id)

theorem named_watch {id' : String} (hne : id' ≠ id) : (w.watch id' kind).named id = w.named id := by
  simp [watch, named, hne]

theorem named_poll : (w.poll polled).1.named id =
    (w.named id).filter fun x => !polled id || (w.life.signal x.kind).get?.isNone := by
  rw [poll, named, named, List.filter_filter, List.filter_filter]
  refine List.filter_congr fun x _ => ?_
  by_cases hx : x.id = id
  · simp [hx, told]
  · simp [hx]

theorem toldTo_poll : toldTo id (w.poll polled).2 =
    if polled id then (w.named id).filterMap fun x => (w.life.signal x.kind).get? else [] := by
  rw [poll, toldTo, List.filterMap_filterMap, List.filterMap_filter, named, List.filterMap_filter]
  by_cases hid : polled id = true
  · rw [if_pos hid]
    refine List.filterMap_congr fun x _ => ?_
    by_cases hx : x.id = id
    · cases hs : (w.life.signal x.kind).get? <;> simp [hx, hid, told, hs]
    · cases hs : (w.life.signal x.kind).get? <;> simp [hx, told, hs]
  · rw [if_neg hid, List.filterMap_eq_nil_iff]
    intro x _
    by_cases hx : x.id = id
    · simp [hx, hid]
    · cases hs : (w.life.signal x.kind).get? <;> simp [hx, told, hs]

/-- Nobody is told anything under a name that nobody has. -/
theorem move_unnamed (hn : w.named id = []) (hm : m.newcomer? ≠ some id) :
    (w.move m).1.named id = [] ∧ toldTo id (w.move m).2 = [] := by
  cases m with
  | operate op => exact ⟨hn, rfl⟩
  | watch id' kind =>
    have hne : id' ≠ id := fun heq => hm (congrArg some heq)
    exact ⟨(named_watch hne).trans hn, rfl⟩
  | poll polled =>
    constructor
    · rw [move, named_poll, hn]
      rfl
    · rw [move, toldTo_poll, hn]
      simp

theorem follow_unnamed (hn : w.named id = []) (hnew : ∀ m ∈ moves, m.newcomer? ≠ some id) :
    (w.follow moves).1.named id = [] ∧ toldTo id (w.follow moves).2 = [] := by
  induction moves generalizing w with
  | nil => exact ⟨hn, rfl⟩
  | cons m moves ih =>
    obtain ⟨hm, hmoves⟩ := List.forall_mem_cons.1 hnew
    obtain ⟨hnext, htold⟩ := move_unnamed hn hm
    obtain ⟨hlast, hmore⟩ := ih hnext hmoves
    refine ⟨hlast, ?_⟩
    rw [follow_cons, toldTo_append, htold, hmore]
    rfl

/-- A move polls the one who waits under the name while the signal is resolved, who is told and
leaves; or it leaves things as they are. -/
theorem move_named (hn : w.named id = [⟨id, kind⟩]) (hm : m.newcomer? ≠ some id) :
    (∃ polled r, m = .poll polled ∧ polled id = true ∧ w.life.signal kind = .resolved r ∧
      (w.move m).1.named id = [] ∧ toldTo id (w.move m).2 = [r]) ∨
    (w.move m).1.named id = [⟨id, kind⟩] ∧ toldTo id (w.move m).2 = [] ∧
      ∀ polled, m = .poll polled → polled id = true → w.life.signal kind = .pending := by
  cases m with
  | operate op => exact .inr ⟨hn, rfl, nofun⟩
  | watch id' kind =>
    have hne : id' ≠ id := fun heq => hm (congrArg some heq)
    exact .inr ⟨(named_watch hne).trans hn, rfl, nofun⟩
  | poll polled =>
    rw [move, named_poll, toldTo_poll, hn]
    cases hid : polled id with
    | false =>
      refine .inr ⟨by simp, by simp, fun polled' heq hpolled => ?_⟩
      cases heq
      rw [hid] at hpolled
      cases hpolled
    | true =>
      cases hs : w.life.signal kind with
      | pending => exact .inr ⟨by simp [hs], by simp [hs], fun _ _ _ => rfl⟩
      | resolved r => exact .inl ⟨polled, r, rfl, hid, rfl, by simp [hs], by simp [hs]⟩

/-- Who waits is told once, when it is polled for the first time with its signal resolved. -/
theorem follow_named (hn : w.named id = [⟨id, kind⟩]) (hnew : ∀ m ∈ moves, m.newcomer? ≠ some id) :
    (∃ before polled rest r, moves = before ++ .poll polled :: rest ∧ polled id = true ∧
      (w.follow before).1.life.signal kind = .resolved r ∧ toldTo id (w.follow moves).2 = [r]) ∨
    toldTo id (w.follow moves).2 = [] ∧
      ∀ before polled rest, moves = before ++ .poll polled :: rest → polled id = true →
        (w.follow before).1.life.signal kind = .pending := by
  induction moves generalizing w with
  | nil =>
    refine .inr ⟨rfl, fun before polled rest heq => ?_⟩
    simp at heq
  | cons m moves ih =>
    obtain ⟨hm, hmoves⟩ := List.forall_mem_cons.1 hnew
    rw [follow_cons, toldTo_append]
    obtain ⟨polled, r, rfl, hid, hs, hgone, htold⟩ | ⟨hstays, htold, hpending⟩ := move_named hn hm
    · refine .inl ⟨[], polled, moves, r, rfl, hid, hs, ?_⟩
      rw [htold, (follow_unnamed hgone hmoves).2]
      rfl
    · rw [htold, List.nil_append]
      obtain ⟨before, polled, rest, r, rfl, hid, hs, htold⟩ | ⟨htold, hall⟩ := ih hstays hmoves
      · exact .inl ⟨m :: before, polled, rest, r, rfl, hid, hs, htold⟩
      · refine .inr ⟨htold, fun before polled rest heq hid => ?_⟩
        obtain ⟨rfl, hnow⟩ | ⟨before', rfl, hlater⟩ := List.cons_eq_append_iff.1 heq
        · cases hnow
          exact hpending polled rfl hid
        · exact hall before' polled rest hlater hid

/-- Who begins to wait under a new name is the only one with it. -/
theorem named_watched (hn : w.named id = []) : (w.watch id kind).named id = [⟨id, kind⟩] := by
  rw [named] at hn ⊢
  simp [watch, hn]

theorem signal_follow (h : w.life.signal kind = .resolved r) :
    (w.follow moves).1.life.signal kind = .resolved r := by
  rw [life_follow]
  exact Lifecycle.signal_after h

/-- Somebody begins to wait under a new name in the middle of a sequence of moves. -/
theorem follow_watched {before rest : List WatchMove} (hn : w.named id = [])
    (hbefore : ∀ m ∈ before, m.newcomer? ≠ some id) (hrest : ∀ m ∈ rest, m.newcomer? ≠ some id) :
    (∃ mid polled late r, rest = mid ++ .poll polled :: late ∧ polled id = true ∧
      (w.follow (before ++ .watch id kind :: mid)).1.life.signal kind = .resolved r ∧
      (w.follow (before ++ .watch id kind :: rest)).1.life.signal kind = .resolved r ∧
      toldTo id (w.follow (before ++ .watch id kind :: rest)).2 = [r]) ∨
    toldTo id (w.follow (before ++ .watch id kind :: rest)).2 = [] ∧
      ∀ mid polled late, rest = mid ++ .poll polled :: late → polled id = true →
        (w.follow (before ++ .watch id kind :: mid)).1.life.signal kind = .pending := by
  obtain ⟨hnobody, hnothing⟩ := follow_unnamed hn hbefore
  have hstart : ((w.follow before).1.watch id kind).named id = [⟨id, kind⟩] :=
    named_watched hnobody
  have hsplit (mid : List WatchMove) : w.follow (before ++ .watch id kind :: mid) =
      ((((w.follow before).1.watch id kind).follow mid).1,
        (w.follow before).2 ++ (((w.follow before).1.watch id kind).follow mid).2) := by
    rw [follow_append, follow_cons]
    rfl
  simp only [hsplit, toldTo_append, hnothing, List.nil_append]
  obtain ⟨mid, polled, late, r, rfl, hid, hs, htold⟩ | ⟨htold, hpending⟩ :=
    follow_named hstart hrest
  · refine .inl ⟨mid, polled, late, r, rfl, hid, hs, ?_, htold⟩
    rw [follow_append]
    exact signal_follow hs
  · exact .inr ⟨htold, hpending⟩

variable {consumer : String} {told : List (String × Except HarnessError Unit)}

/-- A consumer passes through its states in their order, each at most once. Routing is to end in
exactly the states past `started`, the start is unanswered exactly in the first state, and whoever
waits for the rejects waits until the consumer is complete at least; they are told of success exactly
if it was announced while it was complete, and nobody waits for a consumer that has failed. To confirm
a cancel that nobody asked for is an error, with which the consumer and the pending signals fail. What
has failed stays as it is, and so does a signal that was resolved. Whoever begins to wait, sooner or
later, is told that resolution once, when it first looks after it. -/
theorem lifecycle_ascends_and_tells_once {moves : List WatchMove}
    (hw : ({ consumer } : Watched).follow moves = (w, told)) :
    ((((({} : Lifecycle).course consumer (operations moves)).map (·.state)).destutter
      (· ≠ ·)).Sublist GenerationState.passage) ∧
    (w.life.stopRequested = true ↔
      w.life.state = .stopped ∨ w.life.state = .complete ∨ w.life.state = .errored) ∧
    (w.life.started = .pending ↔ w.life.state = .initial) ∧
    (w.life.state = .initial ∨ w.life.state = .started ∨ w.life.state = .stopped →
      w.life.fullyStopped = .pending) ∧
    (w.life.fullyStopped = .resolved (.ok ()) ↔ ∃ before rest,
      operations moves = before ++ .signalStopped :: rest ∧
        (({} : Lifecycle).after consumer before).state = .complete) ∧
    (w.life.state = .errored → w.life.started ≠ .pending ∧ w.life.fullyStopped ≠ .pending ∧
      ∀ ops, w.life.after consumer ops = w.life) ∧
    (∀ e, (w.life.setComplete consumer).2 = .error e ↔
      (w.life.state = .initial ∨ w.life.state = .started) ∧
        e = Lifecycle.cancelledByBroker consumer w.life.state) ∧
    (∀ e, (w.life.setComplete consumer).2 = .error e →
      (w.life.setComplete consumer).1.state = .errored ∧ ∀ kind,
        (w.life.setComplete consumer).1.signal kind = (w.life.signal kind).resolve (.error e)) ∧
    (∀ kind r ops, w.life.signal kind = .resolved r →
      (w.life.after consumer ops).signal kind = .resolved r) ∧
    (∀ before id kind rest, moves = before ++ .watch id kind :: rest →
      (∀ m ∈ before ++ rest, m.newcomer? ≠ some id) →
      (∃ mid polled late r, rest = mid ++ .poll polled :: late ∧ polled id = true ∧
        (({ consumer } : Watched).follow (before ++ .watch id kind :: mid)).1.life.signal kind =
          .resolved r ∧ w.life.signal kind = .resolved r ∧ toldTo id told = [r]) ∨
      toldTo id told = [] ∧ ∀ mid polled late, rest = mid ++ .poll polled :: late →
        polled id = true → (({ consumer } : Watched).follow
          (before ++ .watch id kind :: mid)).1.life.signal kind = .pending) := by
  have hlife : w.life = ({} : Lifecycle).after consumer (operations moves) := by
    have hl : (({ consumer } : Watched).follow moves).1.life = _ := life_follow
    rw [hw] at hl
    exact hl
  have hcoherent : w.life.Coherent := hlife ▸ Lifecycle.coherent_after
  refine ⟨Lifecycle.states_ascend _ _, ?_, hcoherent.unstarted, hcoherent.ahead, ?_, fun herr => ?_,
    fun e => Lifecycle.setComplete_error_iff, fun e he => ?_, fun kind r ops hr => ?_, ?_⟩
  · have hconsistent := hcoherent.consistent
    rw [Lifecycle.Consistent] at hconsistent
    rw [hconsistent]
    cases w.life.state <;> decide
  · rw [hlife]
    exact Lifecycle.fullyStopped_ok_iff
  · refine ⟨fun hp => ?_, hcoherent.errored herr, fun ops => Lifecycle.after_of_errored herr⟩
    have hinitial := hcoherent.unstarted.1 hp
    rw [herr] at hinitial
    cases hinitial
  · have hfails : (w.life.setComplete consumer).1 = w.life.setException e :=
      Lifecycle.setComplete_error (Prod.ext rfl he)
    have hs : w.life.state ≠ .errored := by
      obtain ⟨hs | hs, _⟩ := Lifecycle.setComplete_error_iff.1 he <;> simp [hs]
    rw [hfails]
    exact ⟨Lifecycle.setException_state, fun kind => (Lifecycle.setException_signal hs).2⟩
  · exact Lifecycle.signal_after hr
  · rintro before id kind rest rfl hfresh
    have hnobody : ({ consumer } : Watched).named id = [] := rfl
    have htold := @follow_watched _ id kind before rest hnobody
      (fun m hm => hfresh m (List.mem_append_left _ hm))
      (fun m hm => hfresh m (List.mem_append_right _ hm))
    rwa [hw] at htold

/-- Three wait: for the start before it, for the rejects before they went out, and for the rejects
after the consumer has failed. -/
def threeWait : List WatchMove :=
  [.watch "first" .started, .poll fun _ => true, .operate .setStarted, .operate .stop,
    .watch "second" .fullyStopped, .poll fun _ => true, .operate .setComplete,
    .operate .signalStopped, .operate (.setException .disposed), .poll fun _ => true,
    .watch "third" .fullyStopped, .operate .setStarted, .poll fun _ => true]

theorem three_told_once : ∃ w told, ({ consumer := "consumer" } : Watched).follow threeWait = (w, told) ∧
    told = [("first", .ok ()), ("second", .ok ()), ("third", .ok ())] ∧
    w.life.state = .errored ∧ w.life.started ≠ .pending := by
  have hfollow : ({ consumer := "consumer" } : Watched).follow threeWait = (_, _) := rfl
  obtain ⟨_, _, _, _, _, herrored, _⟩ := lifecycle_ascends_and_tells_once hfollow
  exact ⟨_, _, hfollow, rfl, rfl, (herrored rfl).1⟩

end Watched
end Intercept
