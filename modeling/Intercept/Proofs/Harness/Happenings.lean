import Intercept.Proofs.Harness.Business
import Intercept.Proofs.Harness.Offering

/-! What a move means for those who wait. -/
namespace Intercept.Harness
variable {M : Type} {cfg : Setup M} {allowed : Act M → Prop} {h h' h₁ : Harness M}
  {s : Nat → Harness M} {c g i k n : Nat} {w : Wait M} {x : Generation}

/-- A wait goes on, or is given up. -/
inductive Visit (cfg : Setup M) (h : Harness M) (i : Nat) (w : Wait M) : Harness M → Prop
  | turnedAway (e : HarnessError) : w.stage = .calling → h.failure = some e →
    Visit cfg h i w ((h.enterWait i (.refused e)).tell i (.result (.error e)))
  | joined (g : Nat) : w.stage = .calling → h.failure = none → h.joinable = some g →
    Visit cfg h i w
      (({ h with waiters := h.waiters ++ [w.waiter i] } : Harness M).enterWait i (.starting g))
  | created : w.stage = .calling → h.failure = none → h.joinable = none →
    Visit cfg h i w (({ h with
      waiters := h.waiters ++ [w.waiter i]
      generations := h.generations ++ [({ stage := .created h.current } : Generation)]
      current := some h.generations.length } : Harness M).enterWait i (.starting h.generations.length))
  | accepted (g : Nat) : w.stage = .starting g → (h.life g).started = .resolved (.ok ()) →
    Visit cfg h i w ((h.enterWait i .registered).tell i .registered)
  | refused (g : Nat) (e : HarnessError) : w.stage = .starting g →
    (h.life g).started = .resolved (.error e) →
    Visit cfg h i w (((h.deregister i).enterWait i (.refused e)).tell i (.result (.error e)))
  | awaited : w.stage = .registered → Visit cfg h i w (h.enterWait i .awaited)
  | armed : w.stage = .awaited →
    Visit cfg h i w (h.enterWait i (.awaiting (h.clock + cfg.timeout)))
  | finished (outcome : Outcome M) : (∃ deadline, w.stage = .awaiting deadline) ∨ w.stage = .overdue →
    w.outcome = .resolved outcome → Visit cfg h i w (h.finish i outcome)
  | expired (deadline : Nat) : w.stage = .awaiting deadline → w.outcome = .pending →
    deadline ≤ h.clock → Visit cfg h i w (h.expire cfg i)
  | left : w.stage.isRegistering = true ∨ w.stage.isAccepted = true ∨ w.stage = .overdue →
    Visit cfg h i w ((h.deregister i).enterWait i .dropped)

/-- A generation routes deliveries under this deadline, and was not stopped. -/
def Watches (h : Harness M) (g : Nat) (deadline : Option Nat) : Prop :=
  ∃ x, h.generations[g]? = some x ∧ x.stage = .routing deadline ∧ x.life.stopRequested ≠ true

/-- A delivery that nobody took was not settled by the deadline of its generation. -/
structure Lapses (h : Harness M) (g deadline : Nat) : Prop where
  routing : h.Watches g (some deadline)
  due : deadline ≤ h.clock

/-- What a move means for those who wait. -/
inductive Happening (cfg : Setup M) (h : Harness M) : Harness M → Prop
  | ticked : Happening cfg h { h with clock := h.clock + 1 }
  | busy {h' : Harness M} : h.Business h' → Happening cfg h h'
  | proceeded {h' : Harness M} (g : Nat) (stage : Stage) : h.Proceeds g stage h' → Happening cfg h h'
  | attached {h' : Harness M} (g : Nat) (x : Generation) : h.generations[g]? = some x →
    x.stage.isOpening = true → h.Attached g h' → Happening cfg h h'
  /-- A delivery is handed out. The consumer stops if no waiter is left. -/
  | handed (g : Nat) (d : Delivery) (rest : List Delivery) (x : Generation) (deadline : Option Nat)
    (h₁ : Harness M) : h.Serves g d rest x → x.stage = .routing deadline →
    h.Dispatched cfg g deadline d rest h₁ →
    Happening cfg h (if h₁.waiters.isEmpty then h₁.changeLife g (·.stop) else h₁)
  | expired (g deadline : Nat) : h.Lapses g deadline →
    Happening cfg h ((h.expireAll cfg g).leave cfg g)
  | answered {h' : Harness M} (x : Claim M) (outcome : Outcome M) : x ∈ h.claims →
    h.Answers cfg x outcome → h.Answered x.wait outcome h' → Happening cfg h h'
  | called (w : Wait M) : w.stage = .calling → w.outcome = .pending →
    Happening cfg h { h with waits := h.waits ++ [w] }
  | visited {h' : Harness M} (i : Nat) (w : Wait M) (h₁ : Harness M) : h.waits[i]? = some w →
    h.Visit cfg i w h₁ → h' = h₁ ∨ h' = h₁.disposeIfUnowned → Happening cfg h h'
  | disposed : Happening cfg h h.dispose
  | dropped : Happening cfg h ({ h with dropped := true } : Harness M).disposeIfUnowned

/-! What happens as a consumer goes on, and as none does. -/

/-- The consumer of a generation goes on. -/
inductive Works (cfg : Setup M) (h : Harness M) (g : Nat) : Harness M → Prop
  | proceeded {h' : Harness M} (stage : Stage) : h.Proceeds g stage h' → Works cfg h g h'
  | attached {h' : Harness M} (x : Generation) : h.generations[g]? = some x →
    x.stage.isOpening = true → h.Attached g h' → Works cfg h g h'
  | handed (d : Delivery) (rest : List Delivery) (x : Generation) (deadline : Option Nat)
    (h₁ : Harness M) : h.Serves g d rest x → x.stage = .routing deadline →
    h.Dispatched cfg g deadline d rest h₁ →
    Works cfg h g (if h₁.waiters.isEmpty then h₁.changeLife g (·.stop) else h₁)
  | expired (deadline : Nat) : h.Lapses g deadline →
    Works cfg h g ((h.expireAll cfg g).leave cfg g)

/-- A move in which no consumer goes on. -/
inductive Aside (cfg : Setup M) (h : Harness M) : Harness M → Prop
  | busy {h' : Harness M} : h.Business h' → Aside cfg h h'
  | answered {h' : Harness M} (x : Claim M) (outcome : Outcome M) : x ∈ h.claims →
    h.Answers cfg x outcome → h.Answered x.wait outcome h' → Aside cfg h h'
  | called (w : Wait M) : w.stage = .calling → w.outcome = .pending →
    Aside cfg h { h with waits := h.waits ++ [w] }
  | visited {h' : Harness M} (i : Nat) (w : Wait M) (h₁ : Harness M) : h.waits[i]? = some w →
    h.Visit cfg i w h₁ → h' = h₁ ∨ h' = h₁.disposeIfUnowned → Aside cfg h h'
  | disposed : Aside cfg h h.dispose
  | dropped : Aside cfg h ({ h with dropped := true } : Harness M).disposeIfUnowned

theorem Works.happening (hw : h.Works cfg g h') : h.Happening cfg h' := by
  cases hw with
  | proceeded stage hp => exact .proceeded g stage hp
  | attached x hx hs ha => exact .attached g x hx hs ha
  | handed d rest x deadline h₁ hs hst hd => exact .handed g d rest x deadline h₁ hs hst hd
  | expired deadline hl => exact .expired g deadline hl

theorem Aside.happening (ha : h.Aside cfg h') : h.Happening cfg h' := by
  cases ha with
  | busy hb => exact .busy hb
  | answered x outcome hx hanswers hanswered => exact .answered x outcome hx hanswers hanswered
  | called w hs ho => exact .called w hs ho
  | visited i w h₁ hw hv hend => exact .visited i w h₁ hw hv hend
  | disposed => exact .disposed
  | dropped => exact .dropped

/-! Callers. -/

theorem visit_register (cfg : Setup M) (i : Nat) (hs : w.stage = .calling) :
    ∃ h₁, h.Visit cfg i w h₁ ∧ (h.register i w = h₁ ∨ h.register i w = h₁.disposeIfUnowned) := by
  cases hf : h.failure with
  | some e =>
    rw [register_of_failure hf]
    exact ⟨_, .turnedAway e hs hf, .inr rfl⟩
  | none =>
    cases hj : h.joinable with
    | some g =>
      rw [register_joins hf hj]
      exact ⟨_, .joined g hs hf hj, .inl rfl⟩
    | none =>
      rw [register_creates hf hj]
      exact ⟨_, .created hs hf hj, .inl rfl⟩

theorem visit_stepWait? (hs : h.stepWait? cfg i = some h') :
    ∃ w h₁, h.waits[i]? = some w ∧ h.Visit cfg i w h₁ ∧ (h' = h₁ ∨ h' = h₁.disposeIfUnowned) := by
  rw [stepWait?, Option.bind_eq_bind, Option.bind_eq_some_iff] at hs
  obtain ⟨w, hw, hs⟩ := hs
  split at hs
  · next hstage =>
    cases hs
    obtain ⟨h₁, hvisit, heq⟩ := visit_register cfg (h := h) i hstage
    exact ⟨w, h₁, hw, hvisit, heq⟩
  · next g hstage =>
    obtain ⟨started, hstarted, hs⟩ := Option.bind_eq_some_iff.1 hs
    have hsignal : (h.life g).started = .resolved started := by
      cases hsig : (h.life g).started <;> simp_all
    cases started with
    | ok =>
      cases hs
      exact ⟨w, _, hw, .accepted g hstage hsignal, .inr rfl⟩
    | error e =>
      cases hs
      exact ⟨w, _, hw, .refused g e hstage hsignal, .inr rfl⟩
  · next hstage =>
    cases hs
    exact ⟨w, _, hw, .armed hstage, .inl rfl⟩
  · next deadline hstage =>
    split at hs
    · next outcome houtcome =>
      cases hs
      have hres : w.outcome = .resolved outcome := by cases hsig : w.outcome <;> simp_all
      exact ⟨w, _, hw, .finished outcome (.inl ⟨deadline, hstage⟩) hres, .inl rfl⟩
    · next hnone =>
      split at hs
      · next hdue =>
        cases hs
        exact ⟨w, _, hw, .expired deadline hstage (OneShot.get?_eq_none_iff.1 hnone) hdue, .inl rfl⟩
      · cases hs
  · next hstage =>
    obtain ⟨outcome, houtcome, rfl⟩ := Option.map_eq_some_iff.1 hs
    have hres : w.outcome = .resolved outcome := by cases hsig : w.outcome <;> simp_all
    exact ⟨w, _, hw, .finished outcome (.inr hstage) hres, .inl rfl⟩
  · cases hs

/-- Whoever is not listed need not leave the list. -/
theorem deregister_of_nil (hv : h.waitersOf i = []) : h.deregister i = h := by
  rw [deregister]
  refine if_neg fun hany => ?_
  obtain ⟨v, hv', hid⟩ := List.any_eq_true.1 hany
  have hmem : v ∈ h.waitersOf i := List.mem_filter.2 ⟨hv', hid⟩
  rw [hv] at hmem
  cases hmem

theorem visit_giveUp (ha : h.Attended cfg) (hs : h.giveUp i = some h') : h' = h ∨
    ∃ w h₁, h.waits[i]? = some w ∧ h.Visit cfg i w h₁ ∧ (h' = h₁ ∨ h' = h₁.disposeIfUnowned) := by
  rw [giveUp, Option.bind_eq_bind, Option.bind_eq_some_iff] at hs
  obtain ⟨w, hw, hs⟩ := hs
  have hleft : w.stage.isRegistering = true ∨ w.stage.isAccepted = true ∨ w.stage = .overdue →
      h.Visit cfg i w ((h.deregister i).enterWait i .dropped) := .left
  split at hs
  · next hstage =>
    cases hs
    have hvisit := hleft (.inl (by rw [hstage]; rfl))
    rw [deregister_of_nil (ha.unlisted_of_calling hw hstage)] at hvisit
    exact .inr ⟨w, _, hw, hvisit, .inr rfl⟩
  · next hstage =>
    cases hs
    exact .inr ⟨w, _, hw, hleft (.inl (by rw [hstage]; rfl)), .inr rfl⟩
  · next hstage =>
    cases hs
    exact .inr ⟨w, _, hw, hleft (.inr (.inl (by rw [hstage]; rfl))), .inl rfl⟩
  · next hstage =>
    cases hs
    exact .inr ⟨w, _, hw, hleft (.inr (.inl (by rw [hstage]; rfl))), .inl rfl⟩
  · next hstage =>
    cases hs
    exact .inr ⟨w, _, hw, hleft (.inr (.inl (by rw [hstage]; rfl))), .inl rfl⟩
  · next hstage =>
    cases hs
    exact .inr ⟨w, _, hw, hleft (.inr (.inr hstage)), .inl rfl⟩
  · cases hs
    exact .inl rfl
  · cases hs
  · cases hs

/-! Generations. -/

/-- As long as the harness has not failed, no generation was kept from handing its messages back. -/
theorem Paired.failed_of_unstopped {e : HarnessError} (hp : h.Paired) (ha : h.Attended cfg)
    (he : (h.life g).fullyStopped = .resolved (.error e)) : h.failure ≠ none := by
  intro hf
  have hlt : g < h.lives.length := by
    refine Nat.lt_of_not_le fun hle => ?_
    rw [life_eq, List.getElem?_eq_none hle] at he
    cases he
  have hmem := List.mem_of_getElem? (lives_of_lt hlt)
  have hsignalled := ha.signalled _ hmem
  have herr := hp.unfailed hf _ hmem
  cases hs : (h.life g).state with
  | errored => exact herr hs
  | complete =>
    rw [hsignalled.complete hs] at he
    cases he
  | initial | started | stopped =>
    rw [hsignalled.stopping (by simp [hs])] at he
    cases he

theorem works_opening (hx : h.generations[g]? = some x) (hs : x.stage.isOpening = true)
    (hcases : (∃ stage, h.Proceeds g stage h') ∨ h.Attached g h') : h.Works cfg g h' := by
  rcases hcases with ⟨stage, hp⟩ | ha
  · exact .proceeded stage hp
  · exact .attached x hx hs ha

theorem works_route? {deadline : Option Nat} (hx : h.generations[g]? = some x)
    (hst : x.stage = .routing deadline) (hs : h.route? cfg g deadline = some h') :
    h.Works cfg g h' := by
  simp only [route?, hx, Option.bind_eq_bind, Option.bind_some] at hs
  split at hs
  · cases hs
    exact .proceeded .ended proceeds_leave
  · next hgoing =>
    split at hs
    · next hdue =>
      cases hs
      cases deadline with
      | none => cases hdue
      | some t => exact .expired t ⟨⟨x, hx, hst, hgoing⟩, of_decide_eq_true hdue⟩
    · split at hs
      · next d rest hin =>
        cases hs
        obtain ⟨h₁, hd, heq⟩ := dispatch_dispatched cfg h (g := g) deadline d rest
        rw [heq]
        exact .handed d rest x deadline h₁ ⟨hx, ⟨deadline, hst⟩, hgoing, hin⟩ hst hd
      · split at hs <;> cases hs
        exact .proceeded .ended proceeds_leave

theorem works_stepGeneration? (ha : h.Attended cfg) (hp : h.Paired)
    (hs : h.stepGeneration? cfg g = some h') : h.Works cfg g h' := by
  rw [stepGeneration?, Option.bind_eq_bind, Option.bind_eq_some_iff] at hs
  obtain ⟨x, hx, hs⟩ := hs
  split at hs
  · next hst =>
    cases hs
    exact works_opening hx (by rw [hst]; rfl) subscribe_cases
  · next previous hst =>
    cases hs
    exact .proceeded (.waiting previous (h.clock + cfg.timeout)) (.mk h .refl (by simp) .refl)
  · next previous deadline hst =>
    split at hs
    · cases hs
      exact works_opening hx (by rw [hst]; rfl) subscribe_cases
    · next e he =>
      cases hs
      have hsig : (h.life previous).fullyStopped = .resolved (.error e) := by
        cases hsig : (h.life previous).fullyStopped <;> simp_all
      exact .proceeded .ended (proceeds_startFailed (.inr (hp.failed_of_unstopped ha hsig)))
    · split at hs <;> cases hs
      exact .proceeded .ended (proceeds_startFailed (.inl rfl))
  · next answerAt deadline error hst =>
    split at hs
    · split at hs <;> cases hs
      · exact works_opening hx (by rw [hst]; rfl) (attach_cases.imp_left fun hp => ⟨.ended, hp⟩)
      · exact .proceeded .ended (proceeds_startFailed (.inl rfl))
    · split at hs <;> cases hs
      exact .proceeded .ended (proceeds_startFailed (.inl rfl))
  · next deadline hst => exact works_route? hx hst hs
  · cases hs

/-! Claims and acts. -/

theorem aside_stepClaim? (ha : h.Attended cfg) (hs : h.stepClaim? cfg c = some h') :
    h.Aside cfg h' := by
  rw [stepClaim?, Option.bind_eq_bind, Option.bind_eq_some_iff] at hs
  obtain ⟨x, hx, hs⟩ := hs
  split at hs
  · next hstage =>
    cases hs
    rcases takePermit_cases h c x with hcalm | ⟨hnone, hanswered⟩
    · exact .busy (.calm hcalm)
    · exact .answered x _ (List.mem_of_getElem? hx) (.brokenOff (.inl hstage) hnone) hanswered
  · next hstage =>
    cases hs
    rcases launch_cases h c x with hcalm | ⟨hnone, hanswered⟩
    · exact .busy (.calm hcalm)
    · exact .answered x _ (List.mem_of_getElem? hx) (.brokenOff (.inr hstage) hnone) hanswered
  · next result hstage =>
    cases hs
    obtain ⟨outcome, hanswers, hanswered⟩ := answered_conclude ha hx hstage
    exact .answered x outcome (List.mem_of_getElem? hx) hanswers hanswered
  · cases hs

theorem aside_await (hs : h.await i = some h') : h.Aside cfg h' := by
  rw [await, Option.bind_eq_bind, Option.bind_eq_some_iff] at hs
  obtain ⟨w, hw, hs⟩ := hs
  split at hs
  · next hstage =>
    cases hs
    exact .visited i w _ hw (.awaited hstage) (.inl rfl)
  · cases hs

theorem aside_act {a : Act M} {reply : BrokerReply} (ha : h.Attended cfg)
    (hact : h.act? cfg a = some (h', reply)) : h.Aside cfg h' := by
  have hbroker : ∀ {broker : Broker Nat}, h.broker.Onward broker →
      h.Aside cfg { h with broker } := fun hb => .busy (.calm (.same rfl rfl hb))
  cases a with
  | call description predicate =>
    rw [act?] at hact
    split at hact <;> cases hact
    exact .called _ rfl rfl
  | await i =>
    obtain ⟨h₁, hs, heq⟩ := Option.map_eq_some_iff.1 hact
    cases heq
    exact aside_await hs
  | giveUp i =>
    obtain ⟨h₁, hs, heq⟩ := Option.map_eq_some_iff.1 hact
    cases heq
    rcases visit_giveUp ha hs with rfl | ⟨w, h₁, hw, hvisit, heq⟩
    · exact .busy .refl
    · exact .visited i w h₁ hw hvisit heq
  | publish body =>
    cases hact
    exact .busy (.calm calm_publish)
  | publishAll bodies =>
    cases hact
    exact .busy (.calm calm_publishAll)
  | openGate gate =>
    cases hact
    exact .busy (.calm (.same rfl rfl .refl))
  | hold | consumeBacklog count =>
    cases hact
    exact hbroker (.of_same rfl rfl)
  | release =>
    cases hact
    have hcalm : h.Calm { h with broker := h.broker.release.1 } :=
      .same rfl rfl (.of_same rfl rfl)
    exact .busy (hcalm.then business_confirmAll)
  | failConnection reason =>
    cases hact
    exact .busy (business_failAll rfl)
  | ack tag =>
    cases hact
    exact hbroker Broker.onward_ack
  | nack tag multiple =>
    cases hact
    exact hbroker Broker.onward_nack
  | disposeBroker =>
    cases hact
    exact hbroker Broker.onward_dispose
  | notify consumer event =>
    obtain ⟨_, _, hact⟩ := Option.bind_eq_some_iff.1 hact
    obtain ⟨g, _, hact⟩ := Option.bind_eq_some_iff.1 hact
    obtain ⟨_, _, hact⟩ := Option.bind_eq_some_iff.1 hact
    cases hact
    exact .busy business_handle
  | dispose =>
    rw [act?] at hact
    split at hact <;> cases hact
    exact .disposed
  | drop =>
    cases hact
    exact .dropped

/-- The clock ticks, a consumer goes on, or none does. -/
theorem Moves.parts (ha : h.Attended cfg) (hp : h.Paired) (hm : Moves cfg allowed h h') :
    h' = { h with clock := h.clock + 1 } ∨
      (∃ g, h.step? cfg (.generation g) = some h' ∧ h.Works cfg g h') ∨ h.Aside cfg h' := by
  cases hm with
  | act a _ hact => exact .inr (.inr (aside_act ha hact))
  | tick => exact .inl rfl
  | step t hs =>
    cases t with
    | wait i =>
      obtain ⟨w, h₁, hw, hvisit, heq⟩ := visit_stepWait? hs
      exact .inr (.inr (.visited i w h₁ hw hvisit heq))
    | generation g => exact .inr (.inl ⟨g, hs, works_stepGeneration? ha hp hs⟩)
    | claim c => exact .inr (.inr (aside_stepClaim? ha hs))
    | callback c => exact .inr (.inr (.busy (.calm (calm_stepCallback? hs))))

/-- What a move means for those who wait. -/
theorem happening_of_moves (ha : h.Attended cfg) (hp : h.Paired) (hm : Moves cfg allowed h h') :
    h.Happening cfg h' := by
  rcases hm.parts ha hp with rfl | ⟨g, _, hw⟩ | haside
  · exact .ticked
  · exact hw.happening
  · exact haside.happening

theorem Run.parts (hr : Run cfg allowed s) (n : Nat) :
    s (n + 1) = { s n with clock := (s n).clock + 1 } ∨
      (∃ g, (s n).step? cfg (.generation g) = some (s (n + 1)) ∧ (s n).Works cfg g (s (n + 1))) ∨
      (s n).Aside cfg (s (n + 1)) := by
  rcases hr.next n with heq | hm
  · rw [heq]
    exact .inr (.inr (.busy .refl))
  · exact hm.parts (hr.attended n) (paired_reachable (hr.reachable n))

theorem Run.happening (hr : Run cfg allowed s) (n : Nat) :
    (s n).Happening cfg (s (n + 1)) := by
  rcases hr.next n with heq | hm
  · rw [heq]
    exact .busy .refl
  · exact happening_of_moves (hr.attended n) (paired_reachable (hr.reachable n)) hm

end Intercept.Harness
