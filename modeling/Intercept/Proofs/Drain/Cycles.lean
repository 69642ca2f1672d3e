import Intercept.Proofs.Drain.Moves

/-! The cycles of a poller: when they begin, how long they last, and how they end. -/
namespace Intercept.DrainWaiter
variable {w w' : DrainWaiter} {m : DrainMove} {o : DrainOutcome} {id : String} {deadline n k : Nat}
  {queue : String} {timeout : Duration} {moves : Nat → DrainMove} {s : Nat → DrainWaiter}

/-- What the callers are told when everybody is handed an outcome. -/
def handed (w : DrainWaiter) (outcome : DrainOutcome) : List (String × DrainOutcome) :=
  (w.registrations.filter (!·.abandoned)).map fun r => (r.id, outcome)

@[simp] theorem concluded_timeout : (w.concluded o).timeout = w.timeout := by
  unfold concluded
  split <;> rfl

@[simp] theorem concluded_queue : (w.concluded o).queue = w.queue := by
  unfold concluded
  split <;> rfl

@[simp] theorem concluded_polls : (w.concluded o).polls = w.polls := by
  unfold concluded
  split <;> rfl

@[simp] theorem concluded_dropped : (w.concluded o).dropped = w.dropped := by
  unfold concluded
  split <;> rfl

@[simp] theorem concluded_registrations : (w.concluded o).registrations = [] := by
  unfold concluded
  split <;> rfl

@[simp] theorem concluded_outcomes : (w.concluded o).outcomes = w.outcomes ++ w.handed o := by
  unfold concluded
  split <;> rfl

@[simp] theorem concluded_deadline : (w.concluded o).poller.deadline? = none := by
  unfold concluded
  split <;> rfl

/-- What is set up once. -/
theorem move_setup (w : DrainWaiter) (m : DrainMove) :
    (w.move m).queue = w.queue ∧ (w.move m).timeout = w.timeout := by
  cases m with
  | step =>
    have hs := stepped_step w
    change w.step.queue = _ ∧ w.step.timeout = _
    generalize w.step = w' at hs ⊢
    cases hs <;> simp [poll]
  | register id =>
    simp only [move, register]
    split
    · exact ⟨rfl, rfl⟩
    · split <;> exact ⟨rfl, rfl⟩
  | tick =>
    simp only [move]
    split <;> exact ⟨rfl, rfl⟩
  | drop =>
    simp only [move, drop]
    split <;> exact ⟨rfl, rfl⟩
  | _ => exact ⟨rfl, rfl⟩

/-! What is ahead of the poller. -/

/-- The poller is not late, and it will wake for those who are registered. -/
def Timely (w : DrainWaiter) : Prop :=
  match w.poller with
  | .asleep => w.permit = true ∨ w.registrations = []
  | .polling deadline answerAt _ =>
    w.clock ≤ answerAt ∧ w.clock ≤ deadline ∧ deadline ≤ w.clock + w.timeout.ticks
  | .pausing deadline wakeAt =>
    w.clock ≤ wakeAt ∧ wakeAt < deadline ∧ deadline ≤ w.clock + w.timeout.ticks
  | .lingering deadline => w.clock ≤ deadline ∧ deadline ≤ w.clock + w.timeout.ticks
  | .ended => w.registrations = []

/-- The poller is timely, and it ends with the waiter or with a failure of the source. -/
structure Poised (w : DrainWaiter) : Prop where
  timely : w.Timely
  ended : w.poller = .ended ↔ w.dropped = true ∨ w.failure ≠ none

theorem timely_of_empty (hp : w.poller = .asleep ∨ w.poller = .ended) (hr : w.registrations = []) :
    w.Timely := by
  rcases hp with hp | hp <;> simp [Timely, hp, hr]

theorem concluded_poller : (w.concluded o).poller = .asleep ∨ (w.concluded o).poller = .ended := by
  unfold concluded
  split
  · exact .inr rfl
  · exact .inl rfl

theorem Concludes.not_ended (hc : w.Concludes o) : w.poller ≠ .ended := by
  cases hc with
  | drained ha =>
    obtain ⟨deadline, answerAt, hp, _⟩ := ha
    simp [hp]
  | failed e ha =>
    obtain ⟨deadline, answerAt, hp, _⟩ := ha
    simp [hp]
  | late deadline hp _ _ _ =>
    intro hended
    simp [hended, Poller.deadline?] at hp

theorem Poised.concluded (hi : w.Poised) (hc : w.Concludes o) : (w.concluded o).Poised := by
  refine ⟨timely_of_empty concluded_poller concluded_registrations, ?_⟩
  have hopen : ¬ (w.dropped = true ∨ w.failure ≠ none) := fun h => hc.not_ended (hi.ended.2 h)
  unfold DrainWaiter.concluded
  split
  · simp
  · simpa [endCycle, handOut] using hopen

theorem Poised.step (hi : w.Poised) : w.step.Poised := by
  have hs := stepped_step w
  generalize w.step = w' at hs ⊢
  obtain ⟨htimely, hended⟩ := hi
  cases hs with
  | rests _ => exact ⟨htimely, hended⟩
  | dozes hp _ hnobody => exact ⟨timely_of_empty (.inl hp) hnobody, hended⟩
  | starts hp _ _ =>
    refine ⟨by simp [Timely, poll], ?_⟩
    simpa [hp, poll] using hended
  | pauses deadline answerAt depth hp _ _ hd =>
    simp only [Timely, hp] at htimely
    refine ⟨?_, by simpa [hp] using hended⟩
    simp only [Timely]
    omega
  | lingers deadline answerAt depth hp _ _ _ =>
    simp only [Timely, hp] at htimely
    refine ⟨?_, by simpa [hp] using hended⟩
    simp only [Timely]
    omega
  | polls deadline wakeAt hp hwake =>
    simp only [Timely, hp] at htimely
    refine ⟨?_, by simpa [hp, poll] using hended⟩
    simp only [Timely, poll]
    omega
  | ends outcome hc => exact Poised.concluded ⟨htimely, hended⟩ hc

theorem Timely.before_deadline (ht : w.Timely) (h : w.poller.deadline? = some deadline) :
    w.clock ≤ deadline ∧ deadline ≤ w.clock + w.timeout.ticks := by
  unfold Timely at ht
  cases hp : w.poller <;> simp only [hp] at ht <;> rw [hp] at h <;> cases h
  all_goals omega

/-- Until the poller is ready, nothing is late. -/
theorem Timely.tick (ht : w.Timely) (hr : w.ready = false) :
    ({ w with clock := w.clock + 1 } : DrainWaiter).Timely := by
  unfold ready at hr
  unfold Timely at ht ⊢
  dsimp only
  cases hp : w.poller <;> simp only [hp] at hr ht ⊢
  case polling deadline answerAt result =>
    simp only [Bool.or_eq_false_iff, decide_eq_false_iff_not] at hr
    omega
  case pausing deadline wakeAt =>
    simp only [decide_eq_false_iff_not] at hr
    omega
  case lingering deadline =>
    simp only [decide_eq_false_iff_not] at hr
    omega
  all_goals exact ht

theorem Poised.register (hi : w.Poised) (hd : w.dropped = false) : (w.register id).1.Poised := by
  unfold DrainWaiter.register
  split
  · exact hi
  · next hf =>
    have hopen : w.poller ≠ .ended := fun h => by simpa [hd, hf] using hi.ended.1 h
    refine ⟨?_, hi.ended⟩
    have ht := hi.timely
    unfold Timely at ht ⊢
    dsimp only
    cases hp : w.poller <;> simp only [hp] at ht ⊢
    case asleep => exact .inl trivial
    case ended => exact absurd hp hopen
    all_goals exact ht

theorem Poised.move (hi : w.Poised) (m : DrainMove) : (w.move m).Poised := by
  cases m with
  | register id =>
    simp only [DrainWaiter.move]
    split
    · exact hi
    · next hd => exact hi.register (Bool.eq_false_iff.2 hd)
  | forget id =>
    refine ⟨?_, hi.ended⟩
    have ht := hi.timely
    unfold Timely at ht ⊢
    simp only [DrainWaiter.move, forget]
    cases hp : w.poller <;> simp only [hp] at ht ⊢
    case asleep => exact ht.imp_right fun h => by simp [h]
    case ended => simp [ht]
    all_goals exact ht
  | feed source => exact ⟨hi.timely, hi.ended⟩
  | step => exact hi.step
  | tick =>
    simp only [DrainWaiter.move]
    split
    · exact hi
    · next hr => exact ⟨hi.timely.tick (Bool.eq_false_iff.2 hr), hi.ended⟩
  | drop =>
    simp only [DrainWaiter.move, drop]
    split
    · exact hi
    · exact ⟨timely_of_empty (.inr rfl) rfl, by simp⟩
  | rest => exact hi

/-! Ends of cycles. -/

/-- A move ends the cycle with this outcome for all who are registered. -/
def Ends (w : DrainWaiter) (m : DrainMove) (outcome : DrainOutcome) : Prop :=
  (m = .step ∧ w.Concludes outcome) ∨
  (m = .drop ∧ w.dropped = false ∧ outcome = .error .cancelled)

theorem step_of_concludes (hc : w.Concludes o) : w.step = w.concluded o := by
  cases hc with
  | drained ha =>
    obtain ⟨deadline, answerAt, hp, ha⟩ := ha
    simp [step, hp, ha, answered, concluded]
  | failed e ha =>
    obtain ⟨deadline, answerAt, hp, ha⟩ := ha
    simp [step, hp, ha, answered, concluded]
  | late deadline hdeadline hd hpolling hpausing =>
    cases hp : w.poller with
    | polling d answerAt result =>
      rw [hp] at hdeadline
      cases hdeadline
      have := hpolling answerAt result hp
      simp [step, hp, hd, Nat.not_le.2 this, concluded, notDrained]
    | lingering d =>
      rw [hp] at hdeadline
      cases hdeadline
      simp [step, hp, hd, concluded, notDrained]
    | pausing d wakeAt =>
      rw [hp] at hdeadline
      cases hdeadline
      exact absurd hp (hpausing wakeAt)
    | _ =>
      rw [hp] at hdeadline
      cases hdeadline

/-- What a move does to the registrations and to the outcomes. -/
inductive Books (w : DrainWaiter) (m : DrainMove) (w' : DrainWaiter) : Prop
  | ended (outcome : DrainOutcome) : w.Ends m outcome → w'.registrations = [] →
    w'.outcomes = w.outcomes ++ w.handed outcome → Books w m w'
  | registered (id : String) : m = .register id → w.dropped = false → w.failure = none →
    w'.registrations = w.registrations ++ [{ id := id }] → w'.outcomes = w.outcomes → Books w m w'
  | forgot (id : String) : m = .forget id →
    w'.registrations = (w.registrations.map fun r =>
      if r.id = id then { r with abandoned := true } else r) →
    w'.outcomes = w.outcomes → Books w m w'
  | kept : (∀ outcome, ¬ w.Ends m outcome) →
    (∀ id, m = .register id → w.dropped = true ∨ w.failure ≠ none) →
    w'.registrations = w.registrations → w'.outcomes = w.outcomes → Books w m w'

theorem not_ends_of_other (hstep : m ≠ .step) (hdrop : m ≠ .drop) : ¬ w.Ends m o := by
  rintro (⟨h, _⟩ | ⟨h, _⟩)
  · exact hstep h
  · exact hdrop h

/-- A cycle that ends was polling or lingering. -/
theorem Concludes.going (hc : w.Concludes o) : w.ready = true ∧
    ((∃ deadline answerAt result, w.poller = .polling deadline answerAt result) ∨
      ∃ deadline, w.poller = .lingering deadline) := by
  cases hc with
  | drained ha =>
    obtain ⟨deadline, answerAt, hp, ha⟩ := ha
    exact ⟨by simp [ready, hp, ha], .inl ⟨_, _, _, hp⟩⟩
  | failed e ha =>
    obtain ⟨deadline, answerAt, hp, ha⟩ := ha
    exact ⟨by simp [ready, hp, ha], .inl ⟨_, _, _, hp⟩⟩
  | late deadline hdeadline hd _ hpausing =>
    cases hp : w.poller with
    | polling d answerAt result =>
      rw [hp] at hdeadline
      cases hdeadline
      exact ⟨by simp [ready, hp, hd], .inl ⟨_, _, _, rfl⟩⟩
    | lingering d =>
      rw [hp] at hdeadline
      cases hdeadline
      exact ⟨by simp [ready, hp, hd], .inr ⟨_, rfl⟩⟩
    | pausing d wakeAt =>
      rw [hp] at hdeadline
      cases hdeadline
      exact absurd hp (hpausing wakeAt)
    | _ =>
      rw [hp] at hdeadline
      cases hdeadline

/-- An answer that the queue holds messages ends no cycle. -/
theorem not_concludes_of_depth {answerAt depth : Nat}
    (hp : w.poller = .polling deadline answerAt (.ok depth)) (ha : answerAt ≤ w.clock)
    (hdepth : depth ≠ 0) : ¬ w.Concludes o := by
  intro hc
  cases hc with
  | drained hanswer =>
    obtain ⟨_, _, hp', _⟩ := hanswer
    rw [hp] at hp'
    cases hp'
    exact hdepth rfl
  | failed e hanswer =>
    obtain ⟨_, _, hp', _⟩ := hanswer
    rw [hp] at hp'
    cases hp'
  | late d hdeadline _ hpolling _ =>
    rw [hp] at hdeadline
    cases hdeadline
    have := hpolling _ _ hp
    omega

theorem books_step (w : DrainWaiter) : w.Books .step w.step := by
  have hs := stepped_step w
  have hgoing : ∀ outcome, w.Ends .step outcome → w.Concludes outcome := by
    rintro outcome (⟨_, hc⟩ | ⟨h, _⟩)
    · exact hc
    · cases h
  generalize w.step = w' at hs ⊢
  cases hs with
  | rests hr =>
    refine .kept (fun outcome he => ?_) nofun rfl rfl
    simp [(hgoing outcome he).going.1] at hr
  | dozes hp _ _ =>
    refine .kept (fun outcome he => ?_) nofun rfl rfl
    simpa [hp] using (hgoing outcome he).going.2
  | starts hp _ _ =>
    refine .kept (fun outcome he => ?_) nofun rfl rfl
    simpa [hp] using (hgoing outcome he).going.2
  | pauses deadline answerAt depth hp ha hdepth _ =>
    exact .kept (fun outcome he => not_concludes_of_depth hp ha hdepth (hgoing outcome he)) nofun
      rfl rfl
  | lingers deadline answerAt depth hp ha hdepth _ =>
    exact .kept (fun outcome he => not_concludes_of_depth hp ha hdepth (hgoing outcome he)) nofun
      rfl rfl
  | polls deadline wakeAt hp _ =>
    refine .kept (fun outcome he => ?_) nofun rfl rfl
    simpa [hp] using (hgoing outcome he).going.2
  | ends outcome hc => exact .ended outcome (.inl ⟨rfl, hc⟩) (by simp) (by simp)

theorem books_move (w : DrainWaiter) (m : DrainMove) : w.Books m (w.move m) := by
  cases m with
  | register id =>
    by_cases hopen : w.dropped = false ∧ w.failure = none
    · refine .registered id rfl hopen.1 hopen.2 ?_ ?_ <;> simp [move, register, hopen]
    · have hsame : (w.move (.register id)).registrations = w.registrations ∧
          (w.move (.register id)).outcomes = w.outcomes := by
        simp only [move, register]
        split
        · exact ⟨rfl, rfl⟩
        · next hd =>
          split
          · exact ⟨rfl, rfl⟩
          · next hf => exact absurd ⟨Bool.eq_false_iff.2 hd, hf⟩ hopen
      refine .kept (fun _ => not_ends_of_other (by simp) (by simp)) (fun _ _ => ?_) ?_ ?_
      · cases hd : w.dropped with
        | true => exact .inl rfl
        | false => exact .inr fun hf => hopen ⟨hd, hf⟩
      · exact hsame.1
      · exact hsame.2
  | forget id => exact .forgot id rfl rfl rfl
  | step => exact books_step w
  | drop =>
    cases hd : w.dropped with
    | true =>
      refine .kept ?_ (by simp) (by simp [move, drop, hd]) (by simp [move, drop, hd])
      rintro outcome (⟨h, _⟩ | ⟨_, hopen, _⟩)
      · cases h
      · simp [hd] at hopen
    | false =>
      exact .ended _ (.inr ⟨rfl, hd, rfl⟩) (by simp [move, drop, hd, handOut])
        (by simp [move, drop, hd, handOut, handed])
  | tick =>
    refine .kept (fun _ => not_ends_of_other (by simp) (by simp)) (by simp) ?_ ?_ <;>
    · simp only [move]
      split <;> rfl
  | _ => exact .kept (fun _ => not_ends_of_other (by simp) (by simp)) (by simp) rfl rfl

/-! Beginnings of cycles. -/

/-- The poller wakes for somebody, and its first poll starts. -/
def Starts (w : DrainWaiter) (m : DrainMove) : Prop :=
  m = .step ∧ w.poller = .asleep ∧ w.permit = true ∧ w.registrations ≠ []

/-- A move that is neither a step nor a drop leaves the poller alone. -/
theorem move_poller (hstep : m ≠ .step) (hdrop : m ≠ .drop) : (w.move m).poller = w.poller := by
  cases m with
  | step => exact absurd rfl hstep
  | drop => exact absurd rfl hdrop
  | register id =>
    simp only [move, register]
    split
    · rfl
    · split <;> rfl
  | tick =>
    simp only [move]
    split <;> rfl
  | _ => rfl

/-- The poller stays in the cycle that it is in, unless a cycle starts or ends. -/
theorem deadline_cases (w : DrainWaiter) (m : DrainMove) :
    (w.move m).poller.deadline? = w.poller.deadline? ∨
    (w.Starts m ∧ (w.move m).poller.deadline? = some (w.clock + w.timeout.ticks)) ∨
    ((∃ outcome, w.Ends m outcome) ∧ (w.move m).poller.deadline? = none) := by
  by_cases hdrop : m = .drop
  · subst hdrop
    rw [move, drop]
    split
    · exact .inl rfl
    · next hd =>
      exact .inr (.inr ⟨⟨_, .inr ⟨rfl, Bool.eq_false_iff.2 hd, rfl⟩⟩, rfl⟩)
  by_cases hstep : m = .step
  · subst hstep
    have hs := stepped_step w
    change w.step.poller.deadline? = _ ∨ (_ ∧ w.step.poller.deadline? = _) ∨
      (_ ∧ w.step.poller.deadline? = _)
    generalize w.step = w' at hs ⊢
    cases hs with
    | rests _ => exact .inl rfl
    | dozes _ _ _ => exact .inl rfl
    | starts hp hpermit hsome => exact .inr (.inl ⟨⟨rfl, hp, hpermit, hsome⟩, rfl⟩)
    | pauses d answerAt depth hp _ _ _ => exact .inl (by rw [hp]; rfl)
    | lingers d answerAt depth hp _ _ _ => exact .inl (by rw [hp]; rfl)
    | polls d wakeAt hp _ => exact .inl (by rw [hp]; rfl)
    | ends outcome hc => exact .inr (.inr ⟨⟨outcome, .inl ⟨rfl, hc⟩⟩, by simp⟩)
  · exact .inl (by rw [move_poller hstep hdrop])

/-- The poller is in the cycle that it was in, or a cycle starts. -/
theorem deadline_move (h : (w.move m).poller.deadline? = some deadline) :
    w.poller.deadline? = some deadline ∨
      (w.Starts m ∧ deadline = w.clock + w.timeout.ticks) := by
  rcases deadline_cases w m with hsame | ⟨hstarts, hstart⟩ | ⟨_, hend⟩
  · exact .inl (hsame ▸ h)
  · exact .inr ⟨hstarts, Option.some.inj (h.symm.trans hstart)⟩
  · rw [hend] at h
    cases h

/-- A cycle goes on until it ends. -/
theorem deadline_of_not_ends (h : w.poller.deadline? = some deadline)
    (hends : ∀ outcome, ¬ w.Ends m outcome) : (w.move m).poller.deadline? = some deadline := by
  rcases deadline_cases w m with hsame | ⟨⟨_, hp, _⟩, _⟩ | ⟨⟨outcome, he⟩, _⟩
  · exact hsame.trans h
  · rw [hp] at h
    cases h
  · exact absurd he (hends outcome)

theorem starts_move (h : w.Starts m) :
    (w.move m).poller.deadline? = some (w.clock + w.timeout.ticks) ∧
      (w.move m).polls = w.polls + 1 := by
  obtain ⟨rfl, hp, hpermit, hsome⟩ := h
  have hs : w.move .step = ({ w with permit := false } : DrainWaiter).poll (w.clock + w.timeout.ticks) := by
    simp [move, step, hp, hpermit, wake, hsome]
  rw [hs]
  exact ⟨rfl, rfl⟩

/-! Runs. -/

theorem poised_create {source : DepthSource} :
    ({ queue, timeout, source } : DrainWaiter).Poised :=
  ⟨.inr rfl, by simp⟩

theorem Run.poised (hr : Run queue timeout moves s) (n : Nat) : (s n).Poised := by
  induction n with
  | zero =>
    obtain ⟨source, h⟩ := hr.start
    rw [h]
    exact poised_create
  | succ n ih =>
    rw [hr.next]
    exact ih.move _

theorem Run.setup (hr : Run queue timeout moves s) (n : Nat) :
    (s n).queue = queue ∧ (s n).timeout = timeout := by
  induction n with
  | zero =>
    obtain ⟨source, h⟩ := hr.start
    rw [h]
    exact ⟨rfl, rfl⟩
  | succ n ih =>
    have hsame := move_setup (s n) (moves n)
    rw [hr.next, hsame.1, hsame.2]
    exact ih

/-- The poller is in a cycle from one moment until another. -/
structure InCycle (moves : Nat → DrainMove) (s : Nat → DrainWaiter) (m n : Nat) : Prop where
  lt : m < n
  starts : (s m).Starts (moves m)
  deadline : ∀ j, m < j → j ≤ n →
    (s j).poller.deadline? = some ((s m).clock + (s m).timeout.ticks)

/-- A poller that is not asleep is in a cycle that started some time, and will end at its deadline. -/
theorem Run.inCycle (hr : Run queue timeout moves s)
    (h : (s n).poller.deadline? = some deadline) :
    ∃ m, InCycle moves s m n ∧ deadline = (s m).clock + timeout.ticks := by
  induction n generalizing deadline with
  | zero =>
    obtain ⟨source, hstart⟩ := hr.start
    rw [hstart] at h
    cases h
  | succ n ih =>
    have hnext := h
    rw [hr.next] at hnext
    rcases deadline_move hnext with hbefore | ⟨hstarts, hdeadline⟩
    · obtain ⟨m, hcycle, hd⟩ := ih hbefore
      refine ⟨m, ⟨Nat.lt_succ_of_lt hcycle.lt, hcycle.starts, fun j hj hjn => ?_⟩, hd⟩
      rcases Nat.lt_or_eq_of_le hjn with hlt | rfl
      · exact hcycle.deadline j hj (Nat.le_of_lt_succ hlt)
      · rw [h, hd, (hr.setup m).2]
    · refine ⟨n, ⟨Nat.lt_succ_self n, hstarts, fun j hj hjn => ?_⟩, ?_⟩
      · obtain rfl : j = n + 1 := Nat.le_antisymm hjn hj
        rw [h, hdeadline]
      · rw [hdeadline, (hr.setup n).2]

end Intercept.DrainWaiter
