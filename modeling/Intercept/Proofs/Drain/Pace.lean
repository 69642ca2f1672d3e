import Mathlib.Data.Nat.Init
import Intercept.Proofs.Drain.Outcomes

/-! The pace at which a queue is polled: one poll at a time, a pause after each answer that depends
on the depth, and no poll that would start at the deadline or later. -/
namespace Intercept.DrainWaiter
variable {w w' : DrainWaiter} {m : DrainMove} {o : DrainOutcome} {deadline wakeAt depth : Nat}
  {b i j k n T : Nat} {queue : String} {timeout : Duration} {moves : Nat → DrainMove}
  {s : Nat → DrainWaiter}

/-- A poll starts. -/
def PollStarts (s : Nat → DrainWaiter) (n : Nat) : Prop := (s (n + 1)).polls = (s n).polls + 1

/-- The poller takes the answer of a poll. -/
def Takes (moves : Nat → DrainMove) (s : Nat → DrainWaiter) (n : Nat)
    (result : Except BrokerError Nat) : Prop :=
  moves n = .step ∧ (s n).Answered result

/-- The poll that started with move `j` is in flight: since then no answer was taken, and the cycle
goes on. -/
structure InFlight (moves : Nat → DrainMove) (s : Nat → DrainWaiter) (j n : Nat) : Prop where
  lt : j < n
  starts : PollStarts s j
  unanswered : ∀ k, j < k → k < n → ∀ result, ¬ Takes moves s k result
  goesOn : ∀ k, j < k → k < n → ∀ outcome, ¬ (s k).Ends (moves k) outcome

/-- The answer taken with move `j` is the last one, and no poll has started since. -/
structure LastAnswer (moves : Nat → DrainMove) (s : Nat → DrainWaiter) (j depth n : Nat) : Prop where
  lt : j < n
  takes : Takes moves s j (.ok depth)
  unpolled : ∀ k, j < k → k < n → ¬ PollStarts s k
  unanswered : ∀ k, j < k → k < n → ∀ result, ¬ Takes moves s k result

/-! One move. -/

theorem Answered.polling {result : Except BrokerError Nat} (ha : w.Answered result) :
    ∃ deadline answerAt, w.poller = .polling deadline answerAt result := by
  obtain ⟨deadline, answerAt, hp, _⟩ := ha
  exact ⟨deadline, answerAt, hp⟩

theorem deadline_of_ends (he : w.Ends m o) : (w.move m).poller.deadline? = none := by
  rcases he with ⟨rfl, hc⟩ | ⟨rfl, hopen, _⟩
  · rw [move, step_of_concludes hc, concluded_deadline]
  · rw [move, drop, if_neg (by simp [hopen])]
    rfl

theorem polls_of_ends (he : w.Ends m o) : (w.move m).polls = w.polls := by
  rcases he with ⟨rfl, hc⟩ | ⟨rfl, hopen, _⟩
  · rw [move, step_of_concludes hc, concluded_polls]
  · rw [move, drop, if_neg (by simp [hopen])]
    rfl

/-- What a move does to the pace of the polls. -/
inductive Paces (w : DrainWaiter) (m : DrainMove) (w' : DrainWaiter) : Prop
  | keeps : w'.poller = w.poller → w'.polls = w.polls →
    (∀ result, m = .step → ¬ w.Answered result) → (∀ outcome, ¬ w.Ends m outcome) → Paces w m w'
  | starts (deadline answerAt : Nat) (result : Except BrokerError Nat) : w.Starts m →
    w'.polls = w.polls + 1 → w'.poller = .polling deadline answerAt result → Paces w m w'
  | resumes (deadline wakeAt answerAt : Nat) (result : Except BrokerError Nat) : m = .step →
    w.poller = .pausing deadline wakeAt → wakeAt ≤ w.clock → w'.polls = w.polls + 1 →
    w'.poller = .polling deadline answerAt result → Paces w m w'
  | pauses (deadline answerAt depth : Nat) : m = .step →
    w.poller = .polling deadline answerAt (.ok depth) → answerAt ≤ w.clock → depth ≠ 0 →
    w'.polls = w.polls → w.clock + pollPause depth < deadline →
    w'.poller = .pausing deadline (w.clock + pollPause depth) → Paces w m w'
  | lingers (deadline answerAt depth : Nat) : m = .step →
    w.poller = .polling deadline answerAt (.ok depth) → answerAt ≤ w.clock → depth ≠ 0 →
    w'.polls = w.polls → deadline ≤ w.clock + pollPause depth →
    w'.poller = .lingering deadline → Paces w m w'
  | ends (outcome : DrainOutcome) : w.Ends m outcome → w'.polls = w.polls →
    w'.poller.deadline? = none → Paces w m w'

theorem not_answered_of_rests (hr : w.ready = false) {result : Except BrokerError Nat} :
    ¬ w.Answered result := by
  rintro ⟨deadline, answerAt, hp, ha⟩
  simp [ready, hp, ha] at hr

theorem not_ends_step (h : ∀ outcome, ¬ w.Concludes outcome) : ¬ w.Ends .step o := by
  rintro (⟨_, hc⟩ | ⟨hdrop, _⟩)
  · exact h o hc
  · cases hdrop

theorem paces_step (w : DrainWaiter) : w.Paces .step w.step := by
  have hs := stepped_step w
  generalize w.step = w' at hs ⊢
  cases hs with
  | rests hr =>
    refine .keeps rfl rfl (fun _ _ => not_answered_of_rests hr) fun _ => not_ends_step ?_
    intro outcome hc
    rw [hc.going.1] at hr
    cases hr
  | dozes hp hpermit hnobody =>
    refine .keeps rfl rfl (fun result _ ha => ?_) fun _ => not_ends_step fun outcome hc => ?_
    · obtain ⟨_, _, hpolling⟩ := ha.polling
      rw [hp] at hpolling
      cases hpolling
    · simpa [hp] using hc.going.2
  | starts hp hpermit hsome => exact .starts _ _ _ ⟨rfl, hp, hpermit, hsome⟩ rfl rfl
  | pauses deadline answerAt depth hp ha hdepth hlt =>
    exact .pauses deadline answerAt depth rfl hp ha hdepth rfl hlt rfl
  | lingers deadline answerAt depth hp ha hdepth hle =>
    exact .lingers deadline answerAt depth rfl hp ha hdepth rfl hle rfl
  | polls deadline wakeAt hp hwake => exact .resumes deadline wakeAt _ _ rfl hp hwake rfl rfl
  | ends outcome hc => exact .ends outcome (.inl ⟨rfl, hc⟩) concluded_polls concluded_deadline

/-- Only a step of the poller or a drop can change its pace. -/
theorem same_of_other (hstep : m ≠ .step) (hends : ∀ outcome, ¬ w.Ends m outcome) :
    (w.move m).poller = w.poller ∧ (w.move m).polls = w.polls := by
  cases m with
  | step => exact absurd rfl hstep
  | drop =>
    have hdropped : w.dropped = true := by
      cases hopen : w.dropped with
      | true => rfl
      | false => exact absurd (.inr ⟨rfl, hopen, rfl⟩) (hends (.error .cancelled))
    rw [move, drop, if_pos hdropped]
    exact ⟨rfl, rfl⟩
  | register id =>
    simp only [move, register]
    split
    · exact ⟨rfl, rfl⟩
    · split <;> exact ⟨rfl, rfl⟩
  | tick =>
    simp only [move]
    split <;> exact ⟨rfl, rfl⟩
  | _ => exact ⟨rfl, rfl⟩

theorem paces_move (w : DrainWaiter) (m : DrainMove) : w.Paces m (w.move m) := by
  by_cases hstep : m = .step
  · subst hstep
    exact paces_step w
  · by_cases hends : ∃ outcome, w.Ends m outcome
    · obtain ⟨outcome, he⟩ := hends
      exact .ends outcome he (polls_of_ends he) (deadline_of_ends he)
    · have hnever := not_exists.1 hends
      obtain ⟨hpoller, hpolls⟩ := same_of_other hstep hnever
      exact .keeps hpoller hpolls (fun _ h => absurd h hstep) hnever

/-! Polls in flight. -/

theorem Run.paces (hr : Run queue timeout moves s) (n : Nat) :
    (s n).Paces (moves n) (s (n + 1)) := by
  rw [hr.next]
  exact paces_move _ _

/-- A poll starts with its cycle, or when the pause after an answer is over. -/
theorem Run.poll_starts (hr : Run queue timeout moves s) (h : PollStarts s n) :
    (∃ deadline answerAt result, (s (n + 1)).poller = .polling deadline answerAt result) ∧
    ((s n).Starts (moves n) ∨
      ∃ deadline wakeAt, (s n).poller = .pausing deadline wakeAt ∧ wakeAt ≤ (s n).clock) := by
  have hsame : (s (n + 1)).polls ≠ (s n).polls := by
    rw [h]
    omega
  cases hr.paces n with
  | starts deadline answerAt result hstarts _ hp => exact ⟨⟨_, _, _, hp⟩, .inl hstarts⟩
  | resumes deadline wakeAt answerAt result _ hpausing hwake _ hp =>
    exact ⟨⟨_, _, _, hp⟩, .inr ⟨deadline, wakeAt, hpausing, hwake⟩⟩
  | keeps _ hpolls _ _ => exact absurd hpolls hsame
  | pauses _ _ _ _ _ _ _ hpolls _ _ => exact absurd hpolls hsame
  | lingers _ _ _ _ _ _ _ hpolls _ _ => exact absurd hpolls hsame
  | ends _ _ hpolls _ => exact absurd hpolls hsame

theorem Run.not_starts_of (hr : Run queue timeout moves s) (hasleep : (s n).poller ≠ .asleep)
    (hpausing : ∀ deadline wakeAt, (s n).poller ≠ .pausing deadline wakeAt) :
    ¬ PollStarts s n := by
  intro h
  obtain ⟨_, ⟨_, hp, _⟩ | ⟨deadline, wakeAt, hp, _⟩⟩ := hr.poll_starts h
  · exact hasleep hp
  · exact hpausing deadline wakeAt hp

theorem InFlight.mono (h : InFlight moves s j n) (hj : j < k) (hk : k ≤ n) :
    InFlight moves s j k :=
  ⟨hj, h.starts, fun i hi hik => h.unanswered i hi (Nat.lt_of_lt_of_le hik hk),
    fun i hi hik => h.goesOn i hi (Nat.lt_of_lt_of_le hik hk)⟩

/-- While a poll is in flight the poller waits for its answer. -/
theorem Run.polling_of_inFlight (hr : Run queue timeout moves s) (h : InFlight moves s j n) :
    ∃ deadline answerAt result, (s n).poller = .polling deadline answerAt result := by
  have hpolling : ∀ k, j + 1 ≤ k → k ≤ n →
      ∃ deadline answerAt result, (s k).poller = .polling deadline answerAt result := by
    intro k hk
    induction k, hk using Nat.le_induction with
    | base => intro _; exact (hr.poll_starts h.starts).1
    | succ k hk ih =>
      intro hkn
      obtain ⟨d, a, r, hp⟩ := ih (by omega)
      cases hr.paces k with
      | keeps hsame _ _ _ => exact ⟨d, a, r, hsame.trans hp⟩
      | starts _ _ _ _ _ hp' => exact ⟨_, _, _, hp'⟩
      | resumes _ _ _ _ _ _ _ _ hp' => exact ⟨_, _, _, hp'⟩
      | pauses _ _ _ hstep hp' ha _ _ _ _ =>
        exact absurd ⟨hstep, _, _, hp', ha⟩ (h.unanswered k (by omega) (by omega) _)
      | lingers _ _ _ hstep hp' ha _ _ _ _ =>
        exact absurd ⟨hstep, _, _, hp', ha⟩ (h.unanswered k (by omega) (by omega) _)
      | ends outcome he _ _ => exact absurd he (h.goesOn k (by omega) (by omega) outcome)
  exact hpolling n h.lt (Nat.le_refl n)

theorem Run.not_inFlight_later (hr : Run queue timeout moves s) (hi : InFlight moves s i n)
    (hj : InFlight moves s j n) : ¬ i < j := by
  intro hlt
  obtain ⟨_, _, _, hp⟩ := hr.polling_of_inFlight (hi.mono hlt (Nat.le_of_lt hj.lt))
  exact hr.not_starts_of (by simp [hp]) (by simp [hp]) hj.starts

/-! Where the poller stands within a cycle. -/

/-- A poll is in flight, or the poller holds back for a while after the last answer. -/
def Standing (moves : Nat → DrainMove) (s : Nat → DrainWaiter) (n : Nat) : Prop :=
  match (s n).poller with
  | .polling _ _ _ => ∃ j, InFlight moves s j n
  | .pausing _ wakeAt => ∃ j depth, LastAnswer moves s j depth n ∧ depth ≠ 0 ∧
    wakeAt = (s j).clock + pollPause depth
  | .lingering deadline => ∃ j depth, LastAnswer moves s j depth n ∧ depth ≠ 0 ∧
    deadline ≤ (s j).clock + pollPause depth
  | _ => True

theorem InFlight.succ (h : InFlight moves s j n)
    (ha : ∀ result, moves n = .step → ¬ (s n).Answered result)
    (he : ∀ outcome, ¬ (s n).Ends (moves n) outcome) : InFlight moves s j (n + 1) := by
  refine ⟨Nat.lt_succ_of_lt h.lt, h.starts, fun k hj hk => ?_, fun k hj hk => ?_⟩
  · obtain hlt | rfl := Nat.lt_succ_iff_lt_or_eq.1 hk
    · exact h.unanswered k hj hlt
    · exact fun result htakes => ha result htakes.1 htakes.2
  · obtain hlt | rfl := Nat.lt_succ_iff_lt_or_eq.1 hk
    · exact h.goesOn k hj hlt
    · exact he

theorem LastAnswer.succ (h : LastAnswer moves s j depth n) (hp : (s (n + 1)).polls = (s n).polls)
    (ha : ∀ result, moves n = .step → ¬ (s n).Answered result) :
    LastAnswer moves s j depth (n + 1) := by
  refine ⟨Nat.lt_succ_of_lt h.lt, h.takes, fun k hj hk => ?_, fun k hj hk => ?_⟩
  · obtain hlt | rfl := Nat.lt_succ_iff_lt_or_eq.1 hk
    · exact h.unpolled k hj hlt
    · intro hstarts
      rw [PollStarts, hp] at hstarts
      omega
  · obtain hlt | rfl := Nat.lt_succ_iff_lt_or_eq.1 hk
    · exact h.unanswered k hj hlt
    · exact fun result htakes => ha result htakes.1 htakes.2

theorem inFlight_self (h : PollStarts s n) : InFlight moves s n (n + 1) :=
  ⟨Nat.lt_succ_self n, h, fun k hk hkn => by omega, fun k hk hkn => by omega⟩

theorem lastAnswer_self (h : Takes moves s n (.ok depth)) : LastAnswer moves s n depth (n + 1) :=
  ⟨Nat.lt_succ_self n, h, fun k hk hkn => by omega, fun k hk hkn => by omega⟩

theorem Run.standing (hr : Run queue timeout moves s) (n : Nat) : Standing moves s n := by
  induction n with
  | zero =>
    obtain ⟨source, hstart⟩ := hr.start
    simp [Standing, hstart]
  | succ n ih =>
    cases hr.paces n with
    | keeps hsame hpolls ha he =>
      unfold Standing at ih ⊢
      rw [hsame]
      cases hp : (s n).poller with
      | polling d a r =>
        simp only [hp] at ih ⊢
        obtain ⟨j, hj⟩ := ih
        exact ⟨j, hj.succ ha he⟩
      | pausing d wakeAt =>
        simp only [hp] at ih ⊢
        obtain ⟨j, depth, hj, hrest⟩ := ih
        exact ⟨j, depth, hj.succ hpolls ha, hrest⟩
      | lingering d =>
        simp only [hp] at ih ⊢
        obtain ⟨j, depth, hj, hrest⟩ := ih
        exact ⟨j, depth, hj.succ hpolls ha, hrest⟩
      | _ => trivial
    | starts _ _ _ _ hpolls hp =>
      simp only [Standing, hp]
      exact ⟨n, inFlight_self hpolls⟩
    | resumes _ _ _ _ _ _ _ hpolls hp =>
      simp only [Standing, hp]
      exact ⟨n, inFlight_self hpolls⟩
    | pauses _ _ depth hstep hpolling ha hdepth _ _ hp =>
      simp only [Standing, hp]
      exact ⟨n, depth, lastAnswer_self ⟨hstep, _, _, hpolling, ha⟩, hdepth, rfl⟩
    | lingers _ _ depth hstep hpolling ha hdepth _ hle hp =>
      simp only [Standing, hp]
      exact ⟨n, depth, lastAnswer_self ⟨hstep, _, _, hpolling, ha⟩, hdepth, hle⟩
    | ends _ _ _ hnone =>
      cases hp : (s (n + 1)).poller <;> simp_all [Standing, Poller.deadline?]

/-! Within one cycle. -/

theorem InCycle.succ (hc : InCycle moves s b n)
    (hd : (s (n + 1)).poller.deadline? = (s n).poller.deadline?) : InCycle moves s b (n + 1) := by
  refine ⟨Nat.lt_succ_of_lt hc.lt, hc.starts, fun j hj hjn => ?_⟩
  obtain hlt | rfl := Nat.lt_or_eq_of_le hjn
  · exact hc.deadline j hj (Nat.le_of_lt_succ hlt)
  · rw [hd]
    exact hc.deadline n hc.lt (Nat.le_refl n)

theorem InCycle.mono (hc : InCycle moves s b n) (hb : b < k) (hk : k ≤ n) : InCycle moves s b k :=
  ⟨hb, hc.starts, fun j hj hjk => hc.deadline j hj (Nat.le_trans hjk hk)⟩

/-- A cycle goes on only for those who are registered. -/
theorem Run.registered_of_inCycle (hr : Run queue timeout moves s) (hc : InCycle moves s b n) :
    (s n).registrations ≠ [] := by
  have hregistered : ∀ k, b + 1 ≤ k → k ≤ n → (s k).registrations ≠ [] := by
    intro k hk
    have hkeeps : ∀ i, b ≤ i → i + 1 ≤ n → (s i).registrations ≠ [] →
        (s (i + 1)).registrations ≠ [] := by
      intro i hbi hin hsome
      have hdeadline := hc.deadline (i + 1) (by omega) hin
      rw [hr.next] at hdeadline ⊢
      cases books_move (s i) (moves i) with
      | ended outcome he _ _ =>
        rw [deadline_of_ends he] at hdeadline
        cases hdeadline
      | registered id _ _ _ heq _ => simp [heq]
      | forgot id _ heq _ => simpa [heq] using hsome
      | kept _ _ heq _ => rwa [heq]
    induction k, hk using Nat.le_induction with
    | base =>
      intro hb
      exact hkeeps b (Nat.le_refl b) hb hc.starts.2.2.2
    | succ k hk ih =>
      intro hkn
      exact hkeeps k (by omega) hkn (ih (by omega))
  exact hregistered n hc.lt (Nat.le_refl n)

theorem Run.poll_in_time (hr : Run queue timeout moves s) (h : PollStarts s n) :
    (s n).registrations ≠ [] ∧ ((s n).Starts (moves n) ∨
      ∃ b, InCycle moves s b n ∧ (s n).clock < (s b).clock + timeout.ticks) := by
  obtain ⟨_, hstarts | ⟨deadline, wakeAt, hp, hwake⟩⟩ := hr.poll_starts h
  · exact ⟨hstarts.2.2.2, .inl hstarts⟩
  · have hdeadline : (s n).poller.deadline? = some deadline := by rw [hp]; rfl
    obtain ⟨b, hc, hb⟩ := hr.inCycle hdeadline
    have ht := (hr.poised n).timely
    simp only [Timely, hp] at ht
    exact ⟨hr.registered_of_inCycle hc, .inr ⟨b, hc, by omega⟩⟩

/-- After an answer that is not empty the poller holds back. -/
theorem Run.holds_back (hr : Run queue timeout moves s) (hc : InCycle moves s b j)
    (htakes : Takes moves s j (.ok depth)) (hdepth : depth ≠ 0) : (s (j + 1)).poller =
      if (s b).clock + timeout.ticks ≤ (s j).clock + pollPause depth then
        .lingering ((s b).clock + timeout.ticks)
      else .pausing ((s b).clock + timeout.ticks) ((s j).clock + pollPause depth) := by
  obtain ⟨hstep, deadline, answerAt, hp, ha⟩ := htakes
  have hdeadline := hc.deadline j hc.lt (Nat.le_refl j)
  rw [hp, (hr.setup b).2] at hdeadline
  obtain rfl := Option.some.inj hdeadline
  rw [hr.next, hstep, move, step, hp]
  simp only [ha, if_true]
  cases depth with
  | zero => exact absurd rfl hdepth
  | succ depth => rfl

/-- A pause ends with the next poll, on time, unless the waiter is dropped before. -/
theorem Run.pausing_until (hr : Run queue timeout moves s) (hc : InCycle moves s b (j + 1))
    (hp : (s (j + 1)).poller = .pausing deadline wakeAt) (hn : j < n) :
    (InCycle moves s b n ∧ (s n).poller = .pausing deadline wakeAt ∧
      ∀ k, j < k → k < n → ¬ PollStarts s k) ∨
    ∃ k, j < k ∧ k < n ∧ (∀ i, j < i → i < k → ¬ PollStarts s i) ∧
      (InCycle moves s b k ∧ PollStarts s k ∧ (s k).clock = wakeAt ∨
        moves k = .drop ∧ (s k).dropped = false) := by
  induction n, hn using Nat.le_induction with
  | base => exact .inl ⟨hc, hp, fun k hk hkj => by omega⟩
  | succ n hn ih =>
    obtain ⟨hcn, hpn, hnone⟩ | ⟨k, hjk, hkn, hrest⟩ := ih
    · have hnone' (hnot : ¬ PollStarts s n) : ∀ k, j < k → k < n + 1 → ¬ PollStarts s k := by
        intro k hk hkn
        obtain hlt | rfl := Nat.lt_succ_iff_lt_or_eq.1 hkn
        · exact hnone k hk hlt
        · exact hnot
      cases hr.paces n with
      | keeps hsame hpolls _ _ =>
        refine .inl ⟨hcn.succ (by rw [hsame]), hsame.trans hpn, hnone' fun hstarts => ?_⟩
        rw [PollStarts, hpolls] at hstarts
        omega
      | starts _ _ _ hstarts _ _ => exact absurd (hpn.symm.trans hstarts.2.1) nofun
      | resumes d wakeAt' _ _ _ hpausing hwake hpolls _ =>
        rw [hpn] at hpausing
        cases hpausing
        have ht := (hr.poised n).timely
        simp only [Timely, hpn] at ht
        exact .inr ⟨n, hn, Nat.lt_succ_self n, hnone, .inl ⟨hcn, hpolls, by omega⟩⟩
      | pauses _ _ _ _ hpolling _ _ _ _ _ => simp [hpn] at hpolling
      | lingers _ _ _ _ hpolling _ _ _ _ _ => simp [hpn] at hpolling
      | ends outcome he _ _ =>
        obtain ⟨_, hconcludes⟩ | ⟨hdrop, hopen, _⟩ := he
        · simpa [hpn] using hconcludes.going.2
        · exact .inr ⟨n, hn, Nat.lt_succ_self n, hnone, .inr ⟨hdrop, hopen⟩⟩
    · exact .inr ⟨k, hjk, by omega, hrest⟩

/-- Once no poll fits before the deadline, none starts in this cycle. -/
theorem Run.lingering_until (hr : Run queue timeout moves s) (hj : b ≤ j)
    (hp : (s (j + 1)).poller = .lingering deadline) (hn : j < n) (hc : InCycle moves s b n) :
    (s n).poller = .lingering deadline := by
  induction n, hn using Nat.le_induction with
  | base => exact hp
  | succ n hn ih =>
    have hpn := ih (hc.mono (by omega) (Nat.le_succ n))
    cases hr.paces n with
    | keeps hsame _ _ _ => exact hsame.trans hpn
    | starts _ _ _ hstarts _ _ => exact absurd (hpn.symm.trans hstarts.2.1) nofun
    | resumes _ _ _ _ _ hpausing _ _ _ => simp [hpn] at hpausing
    | pauses _ _ _ _ hpolling _ _ _ _ _ => simp [hpn] at hpolling
    | lingers _ _ _ _ hpolling _ _ _ _ _ => simp [hpn] at hpolling
    | ends _ _ _ hnone =>
      have hdeadline := hc.deadline (n + 1) (by omega) (Nat.le_refl _)
      rw [hnone] at hdeadline
      cases hdeadline

/-- At the deadline a poll is in flight, or the last answer is as old as its pause at most. -/
theorem Run.stale_at_deadline (hr : Run queue timeout moves s)
    (he : (s n).Ends (moves n) (.error (s n).notDrained)) :
    ∃ b, InCycle moves s b n ∧ (s n).clock = (s b).clock + timeout.ticks ∧
      ((∃ j, InFlight moves s j n) ∨
        ∃ j depth, b < j ∧ LastAnswer moves s j depth n ∧ depth ≠ 0 ∧
          (s n).clock ≤ (s j).clock + pollPause depth) := by
  obtain ⟨deadline, hdeadline, hd, hpausing⟩ : ∃ deadline, (s n).poller.deadline? = some deadline ∧
      deadline ≤ (s n).clock ∧ ∀ wakeAt, (s n).poller ≠ .pausing deadline wakeAt := by
    rcases he with ⟨_, hc⟩ | ⟨_, _, hcancelled⟩
    · generalize ho : (.error (s n).notDrained : DrainOutcome) = outcome at hc
      cases hc with
      | drained _ => cases ho
      | failed e _ => simp [notDrained] at ho
      | late deadline hdeadline hd _ hpausing => exact ⟨deadline, hdeadline, hd, hpausing⟩
    · simp [notDrained] at hcancelled
  obtain ⟨b, hc, hb⟩ := hr.inCycle hdeadline
  have hclock := (hr.poised n).timely.before_deadline hdeadline
  have hstanding := hr.standing n
  refine ⟨b, hc, by omega, ?_⟩
  unfold Standing at hstanding
  cases hp : (s n).poller with
  | polling d answerAt result =>
    simp only [hp] at hstanding
    exact .inl hstanding
  | pausing d wakeAt =>
    rw [hp] at hdeadline
    cases hdeadline
    exact absurd hp (hpausing wakeAt)
  | lingering d =>
    simp only [hp] at hstanding
    obtain ⟨j, depth, hlast, hdepth, hle⟩ := hstanding
    rw [hp] at hdeadline
    cases hdeadline
    refine .inr ⟨j, depth, Nat.lt_of_not_le fun hjb => ?_, hlast, hdepth, by omega⟩
    obtain hlt | rfl := Nat.lt_or_eq_of_le hjb
    · refine hlast.unpolled b hlt hc.lt ?_
      rw [PollStarts, hr.next]
      exact (starts_move hc.starts).2
    · obtain ⟨_, _, hpolling⟩ := hlast.takes.2.polling
      rw [hc.starts.2.1] at hpolling
      cases hpolling
  | asleep | ended =>
    rw [hp] at hdeadline
    cases hdeadline

/-- How the poller keeps pace, with a timeout of `T` milliseconds. Each cycle starts with a poll, and
at no moment are two polls in flight. A poll starts only for somebody who is registered, and only
with its cycle or before the deadline of this. After an answer that is not empty the next poll starts
when 100 milliseconds have passed, or 1000 if the queue holds 100 messages or more, unless the waiter
is dropped before; if that would not be before the deadline, no other poll starts in the cycle. At
the deadline a poll is in flight, or the last answer is no older than that pause. -/
theorem polls_keep_pace (hr : Run queue (.ofMillis T) moves s) :
    (∀ b, (s b).Starts (moves b) → PollStarts s b) ∧
    (∀ n i j, InFlight moves s i n → InFlight moves s j n → i = j) ∧
    (∀ n, PollStarts s n → (s n).registrations ≠ [] ∧ ((s n).Starts (moves n) ∨
      ∃ b, InCycle moves s b n ∧ (s n).clock < (s b).clock + T)) ∧
    (∀ b j depth next, InCycle moves s b j → Takes moves s j (.ok depth) → depth ≠ 0 →
      next = (s j).clock + (if depth < 100 then 100 else 1000) →
      (next < (s b).clock + T → ∀ n, j < n →
        (InCycle moves s b n ∧ (s n).clock ≤ next ∧ ((s n).clock = next → (s n).ready = true) ∧
          ∀ k, j < k → k < n → ¬ PollStarts s k) ∨
        ∃ k, j < k ∧ k < n ∧ (∀ i, j < i → i < k → ¬ PollStarts s i) ∧
          (InCycle moves s b k ∧ PollStarts s k ∧ (s k).clock = next ∨
            moves k = .drop ∧ (s k).dropped = false)) ∧
      ((s b).clock + T ≤ next → ∀ k, j < k → InCycle moves s b k → ¬ PollStarts s k)) ∧
    (∀ n, (s n).Ends (moves n) (.error (s n).notDrained) →
      ∃ b, InCycle moves s b n ∧ (s n).clock = (s b).clock + T ∧
        ((∃ j, InFlight moves s j n) ∨
          ∃ j depth, b < j ∧ LastAnswer moves s j depth n ∧ depth ≠ 0 ∧
            (s n).clock ≤ (s j).clock + (if depth < 100 then 100 else 1000))) := by
  have hticks : (Duration.ofMillis T).ticks = T := ticks_ofMillis T
  refine ⟨fun b hstarts => ?_, fun n i j hi hj => ?_, fun n hstarts => ?_,
    fun b j depth next hc htakes hdepth hnext => ?_, fun n he => ?_⟩
  · rw [PollStarts, hr.next]
    exact (starts_move hstarts).2
  · exact Nat.le_antisymm (Nat.le_of_not_lt (hr.not_inFlight_later hj hi))
      (Nat.le_of_not_lt (hr.not_inFlight_later hi hj))
  · rw [← hticks]
    exact hr.poll_in_time hstarts
  · change next = (s j).clock + pollPause depth at hnext
    have hp := hr.holds_back hc htakes hdepth
    rw [hticks] at hp
    constructor
    · intro hlt n hn
      rw [if_neg (by omega)] at hp
      have hcycle : InCycle moves s b (j + 1) := by
        refine hc.succ ?_
        rw [hp, hc.deadline j hc.lt (Nat.le_refl j), (hr.setup b).2, hticks]
        rfl
      refine (hr.pausing_until hcycle hp hn).imp ?_ ?_
      · rintro ⟨hcn, hpn, hnone⟩
        have ht := (hr.poised n).timely
        simp only [Timely, hpn] at ht
        exact ⟨hcn, hnext ▸ ht.1, fun heq => by simp [ready, hpn, heq, hnext], hnone⟩
      · rintro ⟨k, hjk, hkn, hnone, hlast⟩
        exact ⟨k, hjk, hkn, hnone, hnext ▸ hlast⟩
    · intro hle k hk hck
      rw [if_pos (by omega)] at hp
      have hpk := hr.lingering_until (Nat.le_of_lt hc.lt) hp hk hck
      exact hr.not_starts_of (by simp [hpk]) (by simp [hpk])
  · rw [← hticks]
    exact hr.stale_at_deadline he

/-- A cycle of 150 milliseconds in which two polls are answered at once. -/
def twoPolls : List DrainMove :=
  [.register "first", .step, .step] ++ List.replicate 100 .tick ++ [.step, .step] ++
    List.replicate 50 .tick ++ [.step]

/-- The run of that schedule on a queue of five messages. -/
def throughTwoPolls : Nat → DrainWaiter :=
  ({ queue := "orders", timeout := .ofMillis 150, source := .script [{ result := .ok 5 }] } :
    DrainWaiter).after twoPolls

theorem two_polls_keep_pace :
    let moves := fun n => twoPolls.getD n .rest
    let s := throughTwoPolls
    Run "orders" (.ofMillis 150) moves s ∧
    (∃ k, 2 < k ∧ k < 104 ∧ PollStarts s k ∧ (s k).clock = 100) ∧
    ∃ j depth, LastAnswer moves s j depth 155 ∧ depth ≠ 0 ∧
      (s 155).clock ≤ (s j).clock + (if depth < 100 then 100 else 1000) := by
  have hr := @run_after "orders" (.ofMillis 150) (.script [{ result := .ok 5 }]) twoPolls
  obtain ⟨_, _, _, hnext, hlast⟩ := polls_keep_pace hr
  have hcycle : InCycle (fun n => twoPolls.getD n .rest) throughTwoPolls 1 2 := by
    refine ⟨by omega, ⟨rfl, rfl, rfl, by decide⟩, fun j hj hjn => ?_⟩
    obtain rfl : j = 2 := by omega
    rfl
  have htakes : Takes (fun n => twoPolls.getD n .rest) throughTwoPolls 2 (.ok 5) :=
    ⟨rfl, 150, 0, rfl, Nat.le_refl 0⟩
  have hstays : ∀ k, twoPolls.getD k .rest ≠ .drop := by
    intro k hk
    rw [List.getD_eq_getElem?_getD] at hk
    cases hget : twoPolls[k]? with
    | none =>
      rw [hget] at hk
      cases hk
    | some m =>
      rw [hget] at hk
      obtain rfl : m = .drop := hk
      simpa [twoPolls] using List.mem_of_getElem? hget
  have hlingers : (throughTwoPolls 155).poller = .lingering 150 := by
    have hshape : (match (throughTwoPolls 155).poller with
        | .lingering deadline => deadline == 150
        | _ => false) = true := by decide +kernel
    generalize (throughTwoPolls 155).poller = poller at hshape ⊢
    cases poller with
    | lingering deadline => rw [eq_of_beq hshape]
    | _ => cases hshape
  refine ⟨hr, ?_, ?_⟩
  · obtain ⟨_, _, _, hnone⟩ | ⟨k, hjk, hkn, _, ⟨_, hstarts, hclock⟩ | ⟨hdrop, _⟩⟩ :=
      (hnext 1 2 5 100 hcycle htakes (by omega) rfl).1 (by decide) 104 (by omega)
    · exact absurd (by unfold PollStarts; decide +kernel) (hnone 103 (by omega) (by omega))
    · exact ⟨k, hjk, hkn, hstarts, hclock⟩
    · exact absurd hdrop (hstays k)
  · have hends : (throughTwoPolls 155).Ends .step (.error (throughTwoPolls 155).notDrained) := by
      refine .inl ⟨rfl, .late 150 ?_ (by decide +kernel) ?_ ?_⟩
      · rw [hlingers]
        rfl
      · simp [hlingers]
      · simp [hlingers]
    obtain ⟨_, _, _, ⟨j, hj⟩ | ⟨j, depth, _, hj, hdepth, hage⟩⟩ := hlast 155 hends
    · obtain ⟨_, _, _, hpolling⟩ := hr.polling_of_inFlight hj
      exact absurd (hlingers.symm.trans hpolling) nofun
    · exact ⟨j, depth, hj, hdepth, hage⟩

end Intercept.DrainWaiter
