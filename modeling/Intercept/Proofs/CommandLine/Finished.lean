import Intercept.CommandLine.Execute
import Intercept.Proofs.CommandLine.Endings
import Intercept.Proofs.Harness.Notices

/-! The order in which a replay does go on is one of those that it may go on in, and leads to its
end. -/
namespace Intercept

namespace Harness
variable {M : Type} {h : Harness M}

theorem expands_publish {body : Body} : h.Expands (h.publish body).1 := by
  rw [publish]
  split
  · exact ⟨Nat.le_refl _, Nat.le_refl _, Nat.le_refl _⟩
  · exact ⟨Nat.le_refl _, (List.length_modify ..).ge, Nat.le_refl _⟩

theorem prompt_publish {body : Body} (hp : h.broker.Prompt) :
    (h.publish body).1.broker.Prompt := by
  rw [publish, Broker.publish]
  cases Broker.preferred h.broker.consumers with
  | none => exact ⟨hp.holding, hp.held⟩
  | some c => exact ⟨hp.holding, hp.held⟩

end Harness

namespace CommandLine.Replay
variable {r : Replay} {before behind rest : List String} {line : String} {k : Nat} {m : Json}
  {h h' : Harness Json} {s : Session Json} {t : Task} {P : Harness Json → Prop}

/-! Nobody leaves before the lines are published. -/

/-- A line is matched only after one was published. -/
theorem not_matched_of_lines {s : Matched} : ¬ s.Fits r k m r.lines := by
  intro hf
  have htaken := hf.taken
  have hcount := hf.count
  omega

theorem Scene.cancelCalls (hs : r.Scene k m r.lines h) : h.cancelCalls = 0 := by
  cases hs with
  | calling | opening | listening => rfl
  | matched s hf => exact (not_matched_of_lines hf).elim

theorem Scene.stays (hs : r.Scene (before.length + 1) m r.lines h) (ht : 0 < r.setup.timeout)
    (hfind : r.Finds before line behind m) (hstep : h.step? r.setup t = some h') :
    h'.cancelCalls = h.cancelCalls := by
  rw [hs.cancelCalls]
  cases hs with
  | calling clock holding _ =>
    rw [step?_calling] at hstep
    obtain ⟨_, hnext⟩ := Option.ite_none_right_eq_some.1 hstep
    cases hnext
    rfl
  | opening clock holding _ =>
    rw [step?_opening] at hstep
    obtain ⟨_, hnext⟩ := Option.ite_none_right_eq_some.1 hstep
    cases hnext
    rfl
  | listening l hf => exact (Listening.advances hf ht hfind hstep).scene.cancelCalls
  | matched s hf => exact (not_matched_of_lines hf).elim

/-- The tasks of a replay keep to it as long as the broker confirms cancels at once. -/
theorem tame_lines (ht : 0 < r.setup.timeout) (hfind : r.Finds before line behind m)
    (hrest : rest = [] ∨ rest = r.lines) :
    Harness.Tame r.setup fun h => r.Underway rest h ∧ h.broker.Prompt := by
  have hstays : ∀ {h h' t}, r.Underway rest h → h.step? r.setup t = some h' →
      rest = [] ∨ h'.cancelCalls = h.cancelCalls := by
    intro h h' t hu hs
    rcases hrest with hrest | rfl
    · exact .inl hrest
    · exact .inr ((hu.scene ht hfind).stays ht hfind hs)
  have hadvances : ∀ {h h' t}, r.Underway rest h → h.step? r.setup t = some h' →
      r.Advances (before.length + 1) m rest t h h' := fun hu hs =>
    (hu.scene ht hfind).advances ht hfind hu.reachable hs (hstays hu hs)
  constructor
  · intro h h' t hp hs
    exact ⟨hp.1.moved (.stepped t hs (hstays hp.1 hs)), (hadvances hp.1 hs).prompt hp.2⟩
  · intro h h' t hp hs
    exact (hadvances hp.1 hs).expands
  · intro h h' t hp hs
    exact (hadvances hp.1 hs).works
  · intro h h' t t' hp hs
    exact (hadvances hp.1 hs).spares t'

/-! The session. -/

theorem rests_registered (ht : 0 < r.setup.timeout) (hfind : r.Finds before line behind m) :
    r.registered.Rests r.setup fun h => r.Underway r.lines h ∧ h.broker.Prompt :=
  Session.rests_perform Session.rests_initial (tame_lines ht hfind (.inr rfl)) rfl
    ⟨.called rfl, rfl, rfl⟩ ⟨Nat.zero_le _, Nat.le_refl _, Nat.le_refl _⟩

/-- If there are lines to be published when every task has to wait, the caller was told that its wait
is registered. -/
theorem told_of_rests
    (hr : s.Rests r.setup fun h => r.Underway rest h ∧ h.broker.Prompt) (ht : 0 < r.setup.timeout)
    (hfind : r.Finds before line behind m) (hne : rest ≠ []) :
    (0, .registered) ∈ s.harness.notices := by
  obtain ⟨hu, hp⟩ := hr.holds
  have hscene := hu.scene ht hfind
  obtain ⟨next, hm⟩ := hscene.moves hfind fun hdone => hne (hscene.over hdone).1
  cases hm with
  | published htold _ => exact htold
  | awaited _ => exact (hne rfl).elim
  | confirmed hheld _ => exact (hheld hp.held).elim
  | stepped t hs _ =>
    rw [hr.idle t] at hs
    cases hs

/-- The lines that are still to be published are published in a row. -/
theorem Underway.publishAll (hu : r.Underway rest h) (hp : h.broker.Prompt)
    (htold : (0, .registered) ∈ h.notices) :
    r.Underway [] (h.publishAll (rest.map Utf8.encode)).1 ∧
      (h.publishAll (rest.map Utf8.encode)).1.broker.Prompt ∧
      h.Expands (h.publishAll (rest.map Utf8.encode)).1 := by
  induction rest generalizing h with
  | nil => exact ⟨hu, hp, .refl⟩
  | cons x rest ih =>
    have hpublished : r.Underway rest (h.publish (Utf8.encode x)).1 := hu.moved (.published htold rfl)
    have htold' : (0, .registered) ∈ (h.publish (Utf8.encode x)).1.notices := by
      rw [Harness.notices_publish]
      exact htold
    obtain ⟨hall, hprompt, hexpands⟩ := ih hpublished (Harness.prompt_publish hp) htold'
    exact ⟨hall, hprompt, Harness.expands_publish.trans hexpands⟩

/-- What becomes of the harness as the caller begins to await its outcome, which it does once. -/
theorem Scene.awaits {reply : BrokerReply} (hs : r.Scene k m [] h)
    (ha : h.act? r.setup (.await 0) = some (h', reply)) :
    Harness.total (fun w => toAwait w.stage) h'.waits = 0 ∧ h'.broker = h.broker ∧
      h.Expands h' := by
  cases hs with
  | calling | opening => cases ha
  | listening l hf =>
    rw [Listening.act?_await (registered_of_await rfl ha)] at ha
    cases ha
    exact ⟨rfl, rfl, Nat.le_refl _, Nat.le_refl _, Nat.le_refl _⟩
  | matched s hf =>
    rw [Matched.act?_await (registered_of_await rfl ha)] at ha
    cases ha
    exact ⟨rfl, rfl, Nat.le_refl _, Nat.le_refl _, Nat.le_refl _⟩

theorem await_of_awaited (hw : Harness.total (fun w => toAwait w.stage) h.waits = 0) :
    h.act? r.setup (.await 0) = none := by
  apply Option.eq_none_iff_forall_ne_some.2
  rintro ⟨h', reply⟩ ha
  obtain ⟨h₁, hawait, _⟩ := Option.map_eq_some_iff.1 ha
  obtain ⟨w, _, hw₀, hs, _⟩ := Harness.awaits_of_await hawait
  cases hwaits : h.waits with
  | nil =>
    rw [hwaits] at hw₀
    cases hw₀
  | cons w' ws =>
    rw [hwaits] at hw₀ hw
    cases hw₀
    rw [Harness.total, hs] at hw
    exact Nat.succ_ne_zero 3 (Nat.add_eq_zero_iff.1 hw).1

/-- A replay is done when every task has to wait and there is nothing for its caller and its broker
to do. -/
theorem done_of_rests (hr : s.Rests r.setup P) (hu : r.Underway [] s.harness)
    (hp : s.harness.broker.Prompt) (ht : 0 < r.setup.timeout) (hfind : r.Finds before line behind m)
    (hawait : s.harness.act? r.setup (.await 0) = none) : Done s.harness := by
  by_contra hdone
  obtain ⟨next, hm⟩ := (hu.scene ht hfind).moves hfind hdone
  cases hm with
  | awaited ha =>
    rw [hawait] at ha
    cases ha
  | confirmed hheld _ => exact hheld hp.held
  | stepped t hs _ =>
    rw [hr.idle t] at hs
    cases hs

theorem tame_awaited (ht : 0 < r.setup.timeout) (hfind : r.Finds before line behind m) :
    Harness.Tame r.setup fun h => (r.Underway [] h ∧ h.broker.Prompt) ∧
      Harness.total (fun w => toAwait w.stage) h.waits = 0 := by
  apply (tame_lines ht hfind (.inl rfl)).and
  intro h h' t hp hw hs
  have hadvances := (hp.1.scene ht hfind).advances ht hfind hp.1.reachable hs (.inl rfl)
  exact Nat.le_zero.1 (hadvances.awaits.trans_eq hw)

/-- The caller awaits its outcome, and gets it. -/
theorem done_await (hr : s.Rests r.setup fun h => r.Underway [] h ∧ h.broker.Prompt)
    (ht : 0 < r.setup.timeout) (hfind : r.Finds before line behind m) :
    r.Underway [] (s.perform r.setup (.await 0)).1.harness ∧
      Done (s.perform r.setup (.await 0)).1.harness := by
  obtain ⟨hu, hp⟩ := hr.holds
  cases ha : s.harness.act? r.setup (.await 0) with
  | none =>
    rw [Session.perform, ha]
    exact ⟨hu, done_of_rests hr hu hp ht hfind ha⟩
  | some next =>
    obtain ⟨h', reply⟩ := next
    obtain ⟨hw, hbroker, hexpands⟩ := (hu.scene ht hfind).awaits ha
    have hrests := Session.rests_perform hr (tame_awaited ht hfind) ha
      ⟨⟨hu.moved (.awaited ha), hbroker ▸ hp⟩, hw⟩ hexpands
    obtain ⟨⟨hu, hp⟩, hw⟩ := hrests.holds
    exact ⟨hu, done_of_rests hrests hu hp ht hfind (await_of_awaited hw)⟩

/-- The replay is done before any time passes. -/
theorem done_finished (ht : 0 < r.setup.timeout) (hfind : r.Finds before line behind m) :
    r.Underway [] r.finished.harness ∧ Done r.finished.harness := by
  have hne : r.lines ≠ [] := by
    rw [hfind.lines]
    simp
  have hregistered := rests_registered ht hfind
  obtain ⟨hu, hp⟩ := hregistered.holds
  obtain ⟨hall, hprompt, hexpands⟩ := hu.publishAll hp (told_of_rests hregistered ht hfind hne)
  have ha : r.registered.harness.act? r.setup (.publishAll (r.lines.map Utf8.encode)) = some
      ((r.registered.harness.publishAll (r.lines.map Utf8.encode)).1,
        .tags (r.registered.harness.publishAll (r.lines.map Utf8.encode)).2) := rfl
  have hpublished := Session.rests_perform hregistered (tame_lines ht hfind (.inl rfl)) ha
    ⟨hall, hprompt⟩ hexpands
  obtain ⟨hu, hdone⟩ := done_await hpublished ht hfind
  have hover : ((r.registered.perform r.setup (.publishAll (r.lines.map Utf8.encode))).1.perform
      r.setup (.await 0)).1.harness.waits.any (·.stage.isAwaiting) = false := by
    obtain ⟨_, s, hs, ho⟩ := (hu.scene ht hfind).over hdone
    rw [hs]
    change (s.stage.isAwaiting || false) = false
    rw [ho.ended]
    rfl
  rw [finished, if_neg (Bool.eq_false_iff.1 hover)]
  exact ⟨hu, hdone⟩

theorem exitCode_execute {w : Surroundings} {q : ReplayRequest} (hq : prepare w q = .ok r) :
    ((Command.run q).execute w).exitCode = r.output.exitCode := by
  rw [Command.execute, hq]

/-- A replay settles every line, in whatever order it goes on and however late the broker confirms the
cancel of the consumer. Its caller, its consumer and the callback take finitely many steps; as long as
it is not done there is something to come next, without any timer becoming due; and once it is done
its account is the same for all orders. The order in which it does go on is one of these, and leads to
its end. -/
theorem every_order_settles_every_line (hv : r.settings.validate = .ok ())
    (hfind : r.Finds before line behind m) :
    (∀ rest h, r.Underway rest h →
      Acc (fun next now => r.Moves now next) (rest, h) ∧
      (¬ Done h → ∃ next, r.Moves (rest, h) next) ∧
      (Done h → rest = [] ∧ r.Accounted (before.length + 1) m h)) ∧
    r.Underway [] r.finished.harness ∧ Done r.finished.harness ∧
    ∀ w q, prepare w q = .ok r →
      (((Command.run q).execute w).exitCode = 0 ↔ r.failProcessing = false) := by
  have ht := timeout_pos hv
  have haccounted : ∀ rest h, r.Underway rest h → Done h →
      rest = [] ∧ r.Accounted (before.length + 1) m h := by
    intro rest h hu hdone
    obtain ⟨hrest, s, rfl, ho⟩ := (hu.scene ht hfind).over hdone
    exact ⟨hrest, ho.accounted hu.reachable⟩
  obtain ⟨hu, hdone⟩ := done_finished ht hfind
  refine ⟨fun rest h hu => ⟨hu.acc ht hfind, ?_, haccounted rest h hu⟩, hu, hdone, ?_⟩
  · exact (hu.scene ht hfind).moves hfind
  · intro w q hq
    rw [exitCode_execute hq]
    exact (haccounted [] _ hu hdone).2.succeeds

/-- The message of an order. -/
def orderOf (id : Int) : Json := .obj [("id", .num (.int id))]

/-- A malformed line, one that is not matched, the one that is, and one that nobody gets to see. -/
def fourLines : Replay where
  settings := {}
  lines := ["noise", (orderOf 1).print, (orderOf 2).print, (orderOf 3).print]
  field := "id"
  expected := .num (.int 2)
  failProcessing := false
  consumerTag := "mqtap-1"

/-- The third line is acknowledged, and all others go back. -/
theorem fourLines_settled : Done fourLines.finished.harness ∧
    fourLines.finished.harness.broker.acked = [3] ∧
    fourLines.finished.harness.broker.nacked.Perm [1, 2, 4] ∧
    fourLines.finished.harness.broker.backlog.length = 3 ∧
    fourLines.finished.harness.broker.violations = [] := by
  have hmalformed : fourLines.matched? "noise" = none :=
    Option.isNone_iff_eq_none.1 (by decide +kernel)
  have hunmatched : fourLines.matched? (orderOf 1).print = none :=
    Option.isNone_iff_eq_none.1 (by decide +kernel)
  obtain ⟨m, hmatched⟩ : ∃ m, fourLines.matched? (orderOf 2).print = some m :=
    Option.isSome_iff_exists.1 (by decide +kernel)
  have hfind : fourLines.Finds ["noise", (orderOf 1).print] (orderOf 2).print [(orderOf 3).print]
      m := {
    lines := rfl
    before := by
      intro x hx
      simp only [List.mem_cons, List.not_mem_nil, or_false] at hx
      obtain rfl | rfl := hx
      · exact hmalformed
      · exact hunmatched
    line := hmatched }
  obtain ⟨hall, hu, hdone, _⟩ := every_order_settles_every_line (r := fourLines) rfl hfind
  obtain ⟨_, ha⟩ := (hall [] _ hu).2.2 hdone
  obtain ⟨_, hacked, hnacked, hbacklog⟩ := ha.accepted rfl
  exact ⟨hdone, hacked, hnacked, hbacklog, ha.violations⟩

end CommandLine.Replay
end Intercept
