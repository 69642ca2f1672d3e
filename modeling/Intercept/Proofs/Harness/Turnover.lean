import Intercept.Proofs.Harness.Clock
import Intercept.Proofs.Harness.Matching
import Intercept.Proofs.Harness.Permits

/-! In a fair run every permit comes back: whatever becomes of the callbacks before it, each claim is
settled in the end, unless it has no callback. -/

namespace Intercept
variable {M : Type}

/-- A setup in which callbacks panic one after the other, and the second claim has none. -/
def Setup.careless : Setup Bool :=
  { Setup.terse [] 0 with callback := fun _ c => if c = 1 then none else some [.panic none] }

/-- The last stage of a claim. -/
def Claim.lastStage (x : Claim M) : ClaimStage :=
  match x.callback with
  | some _ => .settled
  | none => .brokenOff

theorem CallbackStage.due_mono {callback : CallbackStage} {clock clock' : Nat}
    {openGates openGates' : List String} (hclock : clock ≤ clock')
    (hgates : ∀ gate ∈ openGates, gate ∈ openGates')
    (hdue : callback.due? clock openGates ≠ none) : callback.due? clock' openGates' ≠ none := by
  cases callback with
  | spawned actions => exact Option.some_ne_none _
  | sleeping wakeAt rest =>
    have hwake : wakeAt ≤ clock := by
      by_contra hlate
      exact hdue (if_neg hlate)
    simp [due?, Nat.le_trans hwake hclock]
  | gated gate rest =>
    have hopen : gate ∈ openGates := by
      by_contra hshut
      exact hdue (if_neg fun h => hshut (List.contains_iff_mem.1 h))
    simp [due?, hgates gate hopen]
  | returned result => exact absurd rfl hdue

namespace Desk
variable {forged : Prop} {d d' : Desk M} {c k limit : Nat} {x y z : Claim M}

/-- Time passes, and open gates stay open. -/
theorem Errand.later (he : d.Errand forged d') :
    d.clock ≤ d'.clock ∧ ∀ gate ∈ d.openGates, gate ∈ d'.openGates := by
  cases he with
  | ticked => exact ⟨Nat.le_succ _, fun _ => id⟩
  | opened gate => exact ⟨Nat.le_refl _, fun _ => List.mem_cons_of_mem _⟩
  | filled count hf =>
    rw [hf.same]
    exact ⟨Nat.le_refl _, fun _ => id⟩
  | served c x _ hs => cases hs <;> exact ⟨Nat.le_refl _, fun _ => id⟩
  | _ => exact ⟨Nat.le_refl _, fun _ => id⟩

/-- The queue gets longer, or its first claim gets a permit. -/
theorem Conserves.queue_of_errand (hd : d.Conserves limit) (he : d.Errand forged d') :
    (∃ more, d'.queue = d.queue ++ more) ∨ ∃ next rest x, d.queue = next :: rest ∧
      d'.queue = rest ∧ d'.claims[next]? = some x ∧ x.stage = .granted := by
  have hsame {queue : List Nat} (heq : queue = d.queue) : ∃ more, queue = d.queue ++ more :=
    ⟨[], by simp [heq]⟩
  cases he with
  | filled count hf =>
    rw [hf.same]
    exact .inl (hsame rfl)
  | served c x hx hs =>
    cases hs with
    | queued => exact .inl ⟨[c], rfl⟩
    | handedOn stage free next rest hl hqueue =>
      obtain ⟨_, _, _, hold, _⟩ := hl.over
      have hleft : Harness.Queued (Intercept.restage d.claims c stage) d.queue :=
        hd.queue.restage (hd.queue.not_mem hx hold)
      rw [hqueue] at hleft
      obtain ⟨y, hy, _⟩ := hleft.pop
      exact .inr ⟨next, rest, _, hqueue, rfl, getElem?_restage hy, rfl⟩
    | _ => exact .inl (hsame rfl)
  | _ => exact .inl (hsame rfl)

/-- As a claim comes to its last stage, the first of the queue gets its permit. -/
theorem Errand.pops_of_over {next : Nat} {rest : List Nat}
    (he : d.Errand forged d') (hy : d.claims[k]? = some y) (hopen : y.stage.isOver = false)
    (hz : d'.claims[k]? = some z) (hover : z.stage.isOver = true) (hqueue : d.queue = next :: rest) :
    d'.queue = rest := by
  have hkept (hsame : d'.claims[k]? = some y) : d'.queue = rest := by
    cases hsame.symm.trans hz
    cases hopen.symm.trans hover
  cases he with
  | filled count hf => exact hkept ((congrArg (·.claims[k]?) hf.same).trans hy)
  | claimed x inbox _ _ =>
    exact hkept ((List.getElem?_append_left (List.getElem?_eq_some_iff.1 hy).1).trans hy)
  | served c x hx hs =>
    obtain rfl | hk := eq_or_ne c k
    · cases hs with
      | returned stage free _ hnil => simp [hqueue] at hnil
      | handedOn stage free next' rest' _ hqueue' =>
        rw [hqueue] at hqueue'
        exact (List.cons.inj hqueue').2.symm
      | _ =>
        cases (getElem?_restage hx).symm.trans hz
        cases hover
    · obtain hsame | ⟨_, hgranted⟩ := getElem?_service_of_ne hs hk hy
      · exact hkept hsame
      · cases hgranted.symm.trans hz
        cases hover
  | _ => exact hkept hy

/-- A permit that its claim gives up is free, or goes to the first of the queue. -/
theorem Conserves.gives_back (hd : d.Conserves limit) (hx : d.claims[c]? = some x)
    (hholds : x.stage.holdsPermit = true) (hs : d.Service c x d') (hy : d'.claims[c]? = some y)
    (hover : y.stage.isOver = true) : d.queue = [] ∧ d'.permits = d.permits + 1 ∨
      ∃ next rest z, d.queue = next :: rest ∧ d'.queue = rest ∧ d'.claims[next]? = some z ∧
        z.stage = .granted := by
  cases hs with
  | returned stage free hl hqueue =>
    have hfree := hl.free_eq
    rw [hholds] at hfree
    exact .inl ⟨hqueue, hfree⟩
  | handedOn stage free next rest hl hqueue =>
    obtain ⟨_, _, _, hold, _⟩ := hl.over
    have hleft : Harness.Queued (Intercept.restage d.claims c stage) d.queue :=
      hd.queue.restage (hd.queue.not_mem hx hold)
    rw [hqueue] at hleft
    obtain ⟨z, hz, _⟩ := hleft.pop
    exact .inr ⟨next, rest, _, hqueue, rfl, getElem?_restage hz, rfl⟩
  | _ =>
    cases (getElem?_restage hx).symm.trans hy
    cases hover

/-- Somebody holds a permit as long as somebody waits for one. -/
theorem Conserves.holder (hd : d.Conserves limit) (hpos : 0 < limit) (hqueue : d.queue ≠ []) :
    ∃ (k : Nat) (y : Claim M), d.claims[k]? = some y ∧ y.stage.holdsPermit = true := by
  have hlimit := hd.permits
  have hzero := hd.spent hqueue
  have hcount : 0 < d.claims.countP (·.stage.holdsPermit) := by omega
  obtain ⟨y, hy, hholds⟩ := List.countP_pos_iff.1 hcount
  obtain ⟨k, hk⟩ := List.mem_iff_getElem?.1 hy
  exact ⟨k, y, hk, hholds⟩

end Desk

namespace Harness
variable {cfg : Setup M} {allowed : Act M → Prop} {s : Nat → Harness M} {c k m n : Nat} {x y : Claim M}

/-- What the claims wait for comes: whichever task can go on does so, unless it has to wait again, and
no callback sleeps or stands at a gate for ever. -/
structure Fair (cfg : Setup M) (s : Nat → Harness M) : Prop where
  steps : ∀ (t : Task) (m : Nat), ∃ n, m ≤ n ∧
    ((s n).step? cfg t = none ∨ (s n).step? cfg t = some (s (n + 1)))
  wakes : ∀ (m c : Nat) (x : Claim M) (callback : CallbackStage), (s m).claims[c]? = some x →
    x.stage = .running callback → x.stage.isActive = true →
    ∃ n, m ≤ n ∧ callback.due? (s n).clock (s n).openGates ≠ none

section
variable (hr : Run cfg allowed s)
include hr

theorem Run.conserves (n : Nat) : (s n).desk.Conserves cfg.settings.permits :=
  (hr.reachable n).conserves

theorem Run.errand (n : Nat) : (s n).desk.Errand True (s (n + 1)).desk := by
  cases hr.next n with
  | inl hrests => exact hrests ▸ .none
  | inr hm => exact errand_of_moves (fun _ _ _ => trivial) hm

/-- A claim goes from one stage to the next. -/
theorem Run.stage_of_le (hle : m ≤ n) (hx : (s m).claims[c]? = some x) :
    ∃ stage, (s n).claims[c]? = some { x with stage } ∧
      Relation.ReflTransGen (ClaimStage.Goes x.callback) x.stage stage := by
  induction n, hle using Nat.le_induction with
  | base => exact ⟨x.stage, hx, .refl⟩
  | succ n _ ih =>
    obtain ⟨stage, hstage, hpath⟩ := ih
    obtain ⟨stage', hstage', hsame | hgoes⟩ := (hr.conserves n).goes_of_errand (hr.errand n) hstage
    · subst hsame
      exact ⟨_, hstage', hpath⟩
    · exact ⟨stage', hstage', hpath.tail hgoes⟩

theorem Run.later (hle : m ≤ n) :
    (s m).clock ≤ (s n).clock ∧ ∀ gate ∈ (s m).openGates, gate ∈ (s n).openGates := by
  induction n, hle using Nat.le_induction with
  | base => exact ⟨Nat.le_refl _, fun _ => id⟩
  | succ n _ ih =>
    obtain ⟨hclock, hgates⟩ := (hr.errand n).later
    exact ⟨Nat.le_trans ih.1 hclock, fun gate hg => hgates gate (ih.2 gate hg)⟩

/-- While the queue is not empty and a permit comes back, the first of the queue gets one. -/
theorem Run.popped {next : Nat} {rest : List Nat} (hle : m ≤ n)
    (hqueue : (s m).permitQueue = next :: rest) (hy : (s m).claims[k]? = some y)
    (hopen : y.stage.isOver = false) (hz : (s n).claims[k]? = some z)
    (hover : z.stage.isOver = true) : ∃ j more, m ≤ j ∧ (s (j + 1)).permitQueue = rest ++ more ∧
      ∃ x, (s (j + 1)).claims[next]? = some x ∧ x.stage = .granted := by
  -- Until the queue is served it gets longer, and the claim is not over.
  have hwaits : (∃ j more, m ≤ j ∧ (s (j + 1)).permitQueue = rest ++ more ∧
      ∃ x, (s (j + 1)).claims[next]? = some x ∧ x.stage = .granted) ∨
      ∃ more stage, (s n).permitQueue = next :: rest ++ more ∧
        (s n).claims[k]? = some { y with stage } ∧ stage.isOver = false := by
    clear hz
    induction n, hle using Nat.le_induction with
    | base => exact .inr ⟨[], y.stage, by simp [hqueue], hy, hopen⟩
    | succ n hle ih =>
      obtain hserved | ⟨more, stage, hq, hstage, hnot⟩ := ih
      · exact .inl hserved
      · obtain ⟨more', hlonger⟩ | ⟨next', rest', x, hq', hrest, hx, hxs⟩ :=
          (hr.conserves n).queue_of_errand (hr.errand n)
        · obtain ⟨stage', hstage', _⟩ := (hr.conserves n).goes_of_errand (hr.errand n) hstage
          refine .inr ⟨more ++ more', stage', ?_, hstage', ?_⟩
          · exact hlonger.trans (by simp [desk, hq])
          · refine Bool.eq_false_of_not_eq_true fun hover => ?_
            have hpop := (hr.errand n).pops_of_over hstage hnot hstage' hover hq
            have hlen := congrArg List.length (hpop.symm.trans hlonger)
            simp [desk, hq] at hlen
            omega
        · cases hq.symm.trans hq'
          exact .inl ⟨n, more, hle, hrest, x, hx, hxs⟩
  obtain hserved | ⟨more, stage, _, hstage, hnot⟩ := hwaits
  · exact hserved
  · cases hstage.symm.trans hz
    cases hnot.symm.trans hover

end

/-! Claims that can go on. -/

/-- The tasks of a claim see to that claim. -/
theorem goes_of_step {limit : Nat} {h h' : Harness M} {t : Task}
    (hd : h.desk.Conserves limit) (hx : h.claims[c]? = some x) (ht : t = .claim c ∨ t = .callback c)
    (hs : h.step? cfg t = some h') : ∃ stage, h'.claims[c]? = some { x with stage } ∧
      x.stage.Goes x.callback stage := by
  have hservice : ∃ x, h.claims[c]? = some x ∧ h.desk.Service c x h'.desk := by
    obtain rfl | rfl := ht
    · exact service_stepClaim? hs
    · exact service_stepCallback? hs
  obtain ⟨x', hx', hservice⟩ := hservice
  cases hx'.symm.trans hx
  exact hd.goes_of_service hx hservice

theorem stepClaim?_of_ready {h : Harness M} (hx : h.claims[c]? = some x)
    (hs : x.stage = .claimed ∨ x.stage = .granted ∨ ∃ result, x.stage = .running (.returned result)) :
    ∃ h', h.step? cfg (.claim c) = some h' := by
  obtain hs | hs | ⟨result, hs⟩ := hs <;> simp [step?, stepClaim?, hx, hs]

/-- A claim that is neither queued nor over goes on in the end. -/
theorem Run.goes_on (hr : Run cfg allowed s) (hf : Fair cfg s) (hx : (s m).claims[c]? = some x)
    (hqueued : x.stage ≠ .queued) (hopen : x.stage.isOver = false) :
    ∃ n stage, m ≤ n ∧ (s n).claims[c]? = some { x with stage } ∧
      Relation.TransGen (ClaimStage.Goes x.callback) x.stage stage := by
  -- One of its tasks can go on from some time on, as long as the claim does not.
  obtain ⟨t, k, ht, hk, hready⟩ : ∃ t k, (t = .claim c ∨ t = .callback c) ∧ m ≤ k ∧
      ∀ n, k ≤ n → (s n).claims[c]? = some x → ∃ h', (s n).step? cfg t = some h' := by
    by_cases hown : x.stage = .claimed ∨ x.stage = .granted ∨
        ∃ result, x.stage = .running (.returned result)
    · exact ⟨_, m, .inl rfl, Nat.le_refl m, fun n _ hxn => stepClaim?_of_ready hxn hown⟩
    · obtain ⟨callback, hrunning, hdue⟩ : ∃ callback, x.stage = .running callback ∧
          ∃ n, m ≤ n ∧ callback.due? (s n).clock (s n).openGates ≠ none := by
        cases hst : x.stage with
        | running callback =>
          refine ⟨callback, rfl, ?_⟩
          cases callback with
          | spawned actions => exact ⟨m, Nat.le_refl m, Option.some_ne_none _⟩
          | returned result => exact absurd (.inr (.inr ⟨result, hst⟩)) hown
          | _ => exact hf.wakes m c x _ hx hst (by rw [hst]; rfl)
        | claimed => exact absurd (.inl hst) hown
        | granted => exact absurd (.inr (.inl hst)) hown
        | queued => exact absurd hst hqueued
        | settled | brokenOff => simp [hst, ClaimStage.isOver] at hopen
      obtain ⟨k, hk, hdue⟩ := hdue
      refine ⟨_, k, .inr rfl, hk, fun n hn hxn => ?_⟩
      obtain ⟨hclock, hgates⟩ := hr.later hn
      obtain ⟨actions, hactions⟩ :=
        Option.ne_none_iff_exists'.1 (CallbackStage.due_mono hclock hgates hdue)
      obtain ⟨h', hs, _⟩ := stepCallback?_of_due hxn hrunning hactions
      exact ⟨h', hs⟩
  obtain ⟨n, hn, hstep⟩ := hf.steps t k
  have hmn := Nat.le_trans hk hn
  obtain ⟨stage, hstage, hpath⟩ := hr.stage_of_le hmn hx
  obtain hsame | hmoved := Relation.reflTransGen_iff_eq_or_transGen.1 hpath
  · subst hsame
    obtain ⟨h', hs⟩ := hready n hn hstage
    obtain hnone | hsome := hstep
    · rw [hnone] at hs
      cases hs
    · obtain ⟨stage', hstage', hgoes⟩ := goes_of_step (hr.conserves n) hstage ht hsome
      exact ⟨n + 1, stage', Nat.le_succ_of_le hmn, hstage', .single hgoes⟩
  · exact ⟨n, stage, hmn, hstage, hmoved⟩

theorem work_lt_of_path {callback : Option (List Action)} {stage stage' : ClaimStage}
    (hp : Relation.TransGen (ClaimStage.Goes callback) stage stage') :
    ClaimStage.work (callback.getD []).length stage' <
      ClaimStage.work (callback.getD []).length stage := by
  induction hp with
  | single hg => exact hg.work_lt
  | tail _ hg ih => exact Nat.lt_trans hg.work_lt ih

theorem holdsPermit_of_path {callback : Option (List Action)} {stage stage' : ClaimStage}
    (hp : Relation.ReflTransGen (ClaimStage.Goes callback) stage stage')
    (hs : stage.holdsPermit = true) : stage'.holdsPermit = true ∨ stage'.isOver = true := by
  induction hp with
  | refl => exact .inl hs
  | tail _ hg ih =>
    obtain hs | hover := ih
    · exact hg.holdsPermit hs
    · cases hg.not_over.symm.trans hover

theorem open_of_holdsPermit {stage : ClaimStage} (hs : stage.holdsPermit = true) :
    stage.isOver = false := by
  cases stage <;> first | rfl | cases hs

section
variable (hr : Run cfg allowed s) (hf : Fair cfg s)
include hr hf

/-- Whoever holds a permit is over in the end: each step leaves less to do. -/
theorem Run.holder_ends (hx : (s m).claims[c]? = some x) (hs : x.stage.holdsPermit = true) :
    ∃ n stage, m ≤ n ∧ (s n).claims[c]? = some { x with stage } ∧ stage.isOver = true := by
  induction hw : ClaimStage.work (x.callback.getD []).length x.stage using Nat.strong_induction_on
    generalizing m x with
  | _ w ih =>
    obtain ⟨n, stage, hmn, hstage, hpath⟩ := hr.goes_on hf hx
      (by rintro heq; rw [heq] at hs; cases hs) (open_of_holdsPermit hs)
    obtain hholds | hover := holdsPermit_of_path hpath.to_reflTransGen hs
    · obtain ⟨k, stage', hk, hend⟩ := ih _ (hw ▸ work_lt_of_path hpath) hstage hholds rfl
      exact ⟨k, stage', Nat.le_trans hmn hk, hend⟩
    · exact ⟨n, stage, hmn, hstage, hover⟩

/-- While somebody is in the queue, all permits are held, and one of them comes back. -/
theorem Run.comes_back {next : Nat} {rest : List Nat} (hqueue : (s m).permitQueue = next :: rest) :
    ∃ j more, m ≤ j ∧ (s (j + 1)).permitQueue = rest ++ more ∧
      ∃ x, (s (j + 1)).claims[next]? = some x ∧ x.stage = .granted := by
  obtain ⟨k, y, hy, hholds⟩ :=
    (hr.conserves m).holder (Nat.le_max_left ..) (List.cons_ne_nil next rest ∘ hqueue.symm.trans)
  obtain ⟨n, stage, hn, hend, hover⟩ := hr.holder_ends hf hy hholds
  exact hr.popped hn hqueue hy (open_of_holdsPermit hholds) hend hover

/-- Whoever is in the queue is over in the end. The induction is on those before it. -/
theorem Run.queued_ends {before behind : List Nat} (hx : (s m).claims[c]? = some x)
    (hqueue : (s m).permitQueue = before ++ c :: behind) :
    ∃ n stage, m ≤ n ∧ (s n).claims[c]? = some { x with stage } ∧ stage.isOver = true := by
  induction before generalizing m x behind with
  | nil =>
    obtain ⟨j, _, hj, _, y, hy, hgranted⟩ := hr.comes_back hf hqueue
    obtain ⟨stage, hstage, _⟩ := hr.stage_of_le (Nat.le_succ_of_le hj) hx
    cases hstage.symm.trans hy
    obtain ⟨n, stage', hn, hend⟩ := hr.holder_ends hf hy (hgranted ▸ rfl)
    exact ⟨n, stage', Nat.le_trans (Nat.le_succ_of_le hj) hn, hend⟩
  | cons next before ih =>
    rw [List.cons_append] at hqueue
    obtain ⟨j, more, hj, hrest, _⟩ := hr.comes_back hf hqueue
    obtain ⟨stage, hstage, _⟩ := hr.stage_of_le (Nat.le_succ_of_le hj) hx
    have hrest' : (s (j + 1)).permitQueue = before ++ c :: (behind ++ more) := by
      rw [hrest, List.append_assoc, List.cons_append]
    obtain ⟨n, stage', hn, hend⟩ := ih hstage hrest'
    exact ⟨n, stage', Nat.le_trans (Nat.le_succ_of_le hj) hn, hend⟩

theorem Run.claim_ends (hx : (s m).claims[c]? = some x) :
    ∃ n stage, m ≤ n ∧ (s n).claims[c]? = some { x with stage } ∧ stage.isOver = true := by
  -- Whoever has asked for a permit holds one, is in the queue for one, or is done.
  have hasked {m : Nat} {x : Claim M} (hx : (s m).claims[c]? = some x) (hs : x.stage ≠ .claimed) :
      ∃ n stage, m ≤ n ∧ (s n).claims[c]? = some { x with stage } ∧ stage.isOver = true := by
    cases hst : x.stage with
    | claimed => exact absurd hst hs
    | queued =>
      obtain ⟨before, behind, hqueue⟩ := List.append_of_mem ((hr.conserves m).listed c x hx hst)
      exact hr.queued_ends hf hx hqueue
    | settled | brokenOff => exact ⟨m, x.stage, Nat.le_refl m, hx, hst ▸ rfl⟩
    | _ => exact hr.holder_ends hf hx (hst ▸ rfl)
  by_cases hs : x.stage = .claimed
  · obtain ⟨n, stage, hmn, hstage, hpath⟩ := hr.goes_on hf hx (by simp [hs]) (hs ▸ rfl)
    have hmoved : stage ≠ .claimed := by
      rintro rfl
      have hlt := work_lt_of_path hpath
      rw [hs] at hlt
      exact Nat.lt_irrefl _ hlt
    obtain ⟨k, stage', hk, hend⟩ := hasked hstage hmoved
    exact ⟨k, stage', Nat.le_trans hmn hk, hend⟩
  · exact hasked hx hs

end

/-! What holds in every state. -/

theorem Attended.claimsOf_le_one {h : Harness M} (ha : h.Attended cfg) (i : Nat) :
    (h.claimsOf i).length ≤ 1 := by
  cases hw : h.waits[i]? with
  | none => simp [(ha.nobody i hw).2.1]
  | some w => cases ha.placed i w hw <;> simp [*]

/-- A claim that is over is at its last stage, which is settled if it has a callback. -/
theorem Attended.lastStage {h : Harness M} (ha : h.Attended cfg) (hx : x ∈ h.claims)
    (hover : x.stage.isOver = true) : x.stage = x.lastStage := by
  obtain ⟨_, _, _, _, hbinds⟩ := ha.wait_of_claim hx
  rw [Claim.lastStage]
  split
  · next actions hcallback =>
    cases hst : x.stage with
    | settled => rfl
    | brokenOff =>
      rw [(hbinds.fits.of_brokenOff hst).1] at hcallback
      cases hcallback
    | _ => simp [hst, ClaimStage.isOver] at hover
  · next hnone =>
    have hopen := hbinds.fits.isOpen hnone
    cases hst : x.stage with
    | brokenOff => rfl
    | settled => simp [hst, ClaimStage.isOpen] at hopen
    | _ => simp [hst, ClaimStage.isOver] at hover

/-- A claim is still to begin its callback only if it is in the queue, when no task can go on. -/
theorem Reaches.spent_of_idle {h : Harness M} (hr : Reaches cfg allowed h)
    (hidle : ∀ t, h.step? cfg t = none) (hx : x ∈ h.claims) (hs : x.stage.hasBegun = false) :
    x.stage = .brokenOff ∨ x.stage = .queued ∧ h.permits = 0 := by
  obtain ⟨c, hx⟩ := List.mem_iff_getElem?.1 hx
  have hstuck (hready : x.stage = .claimed ∨ x.stage = .granted ∨
      ∃ result, x.stage = .running (.returned result)) : False := by
    obtain ⟨h', hstep⟩ : ∃ h', h.step? cfg (.claim c) = some h' := stepClaim?_of_ready hx hready
    cases (hidle _).symm.trans hstep
  cases hst : x.stage with
  | claimed => exact (hstuck (.inl hst)).elim
  | queued =>
    have hqueue := List.ne_nil_of_mem (hr.conserves.listed c x hx hst)
    exact .inr ⟨rfl, hr.conserves.spent hqueue⟩
  | granted => exact (hstuck (.inr (.inl hst))).elim
  | running callback =>
    cases callback with
    | spawned actions =>
      obtain ⟨h', hstep, _⟩ := stepCallback?_of_due hx hst rfl
      cases (hidle (.callback c)).symm.trans hstep
    | _ => rw [hst] at hs; cases hs
  | settled => rw [hst] at hs; cases hs
  | brokenOff => exact .inl rfl

/-- A claim that holds a permit goes on to its last stage and gives the permit back, to the claim
that has waited longest. -/
def GivesBack (cfg : Setup M) (h : Harness M) (c : Nat) (x : Claim M) (stage : ClaimStage) : Prop :=
  ∃ h', h.step? cfg (.claim c) = some h' ∧ h'.claims[c]? = some { x with stage } ∧
    (h.permitQueue = [] ∧ h'.permits = h.permits + 1 ∨
      ∃ next rest y, h.permitQueue = next :: rest ∧ h'.permitQueue = rest ∧
        h'.claims[next]? = some y ∧ y.stage = .granted)

theorem GivesBack.handed_on {h : Harness M} {stage : ClaimStage} {next : Nat} {rest : List Nat}
    (hg : h.GivesBack cfg c x stage) (hqueue : h.permitQueue = next :: rest) :
    ∃ h', h.step? cfg (.claim c) = some h' ∧ h'.permitQueue = rest := by
  obtain ⟨h', hs, _, ⟨hnil, _⟩ | ⟨_, _, _, hqueue', hrest, _⟩⟩ := hg
  · cases hnil.symm.trans hqueue
  · cases hqueue'.symm.trans hqueue
    exact ⟨h', hs, hrest⟩

theorem Reaches.gives_back {h : Harness M} {stage : ClaimStage} (hr : Reaches cfg allowed h)
    (hx : h.claims[c]? = some x)
    (hs : x.stage = .granted ∨ ∃ result, x.stage = .running (.returned result))
    (hlast : ∀ stage', x.stage.Goes x.callback stage' → stage' = stage)
    (hover : stage.isOver = true) : h.GivesBack cfg c x stage := by
  obtain ⟨h', hstep⟩ : ∃ h', h.step? cfg (.claim c) = some h' := stepClaim?_of_ready hx (.inr hs)
  obtain ⟨x', hx', hservice⟩ := service_stepClaim? hstep
  cases hx'.symm.trans hx
  obtain ⟨stage', hstage, hgoes⟩ := hr.conserves.goes_of_service hx hservice
  obtain rfl := hlast stage' hgoes
  have hholds : x.stage.holdsPermit = true := by
    obtain hs | ⟨result, hs⟩ := hs <;> rw [hs] <;> rfl
  exact ⟨h', hstep, hstage, hr.conserves.gives_back hx hholds hservice hstage hover⟩

/-- However a callback ended, its claim can go on, and gives the permit back. -/
theorem Reaches.settles {h : Harness M} {result : Except Failure Unit} (hr : Reaches cfg allowed h)
    (hx : h.claims[c]? = some x) (hs : x.stage = .running (.returned result)) :
    h.GivesBack cfg c x .settled := by
  refine hr.gives_back hx (.inr ⟨result, hs⟩) (fun stage hgoes => ?_) rfl
  rw [hs] at hgoes
  cases hgoes with
  | ran _ _ _ _ hdue => cases hdue
  | returned => rfl

/-- So does a claim that was granted a permit and has no callback. -/
theorem Reaches.breaks_off {h : Harness M} (hr : Reaches cfg allowed h)
    (hx : h.claims[c]? = some x) (hs : x.stage = .granted) (hnone : x.callback = none) :
    h.GivesBack cfg c x .brokenOff := by
  refine hr.gives_back hx (.inl hs) (fun stage hgoes => ?_) rfl
  rw [hs, hnone] at hgoes
  cases hgoes with
  | started _ hcallback => cases hcallback
  | brokenOff => rfl

/-- How often the callback was called for what a wait has claimed. -/
def invocations (h : Harness M) (i : Nat) : Nat :=
  h.calls.countP fun note => (h.claimsOf i).any fun x => note.begins x.tag

theorem Run.begun_le_one (hr : Run cfg allowed s) (hown : ∀ a, allowed a → a.forges = false)
    (n tag : Nat) : (s n).calls.countP (·.begins tag) ≤ 1 := by
  have hsingle : (claimTags (s n).claims).count tag ≤ 1 :=
    List.nodup_iff_count_le_one.1 ((hr.reaches n).fresh hown).distinct tag
  rw [claimTags, List.count_eq_countP, List.countP_map] at hsingle
  rw [(hr.attended n).begun tag]
  refine Nat.le_trans (List.countP_mono_left fun y _ hy => ?_) hsingle
  exact (Bool.and_eq_true_iff.1 hy).1

theorem Run.invocations_le_one (hr : Run cfg allowed s) (hown : ∀ a, allowed a → a.forges = false)
    (n i : Nat) : (s n).invocations i ≤ 1 := by
  have hone := (hr.attended n).claimsOf_le_one i
  unfold invocations
  match hclaims : (s n).claimsOf i with
  | [] => simp
  | [x] => simpa using hr.begun_le_one hown n x.tag
  | x :: y :: rest => simp [hclaims] at hone

/-! The run of a schedule that comes to rest. -/

/-- Whether every task has to wait after a schedule, and no callback has to on the way. -/
def comesToRest (cfg : Setup M) : Harness M → List (Move M) → Bool
  | h, [] => !((initial cfg).spawned h).any (h.isReady cfg) && !h.claims.any (·.stage.isActive)
  | h, mv :: rest => !h.claims.any (·.stage.isActive) && comesToRest cfg (h.move cfg mv) rest

theorem after_nil {h : Harness M} (n : Nat) : after cfg h [] n = h := by
  cases n <;> rfl

theorem awake_after {h : Harness M} {moves : List (Move M)}
    (hrest : comesToRest cfg h moves = true) (m : Nat) :
    (after cfg h moves m).claims.any (·.stage.isActive) = false := by
  induction moves generalizing h m with
  | nil =>
    rw [after_nil]
    exact Bool.not_eq_true' _ ▸ (Bool.and_eq_true_iff.1 hrest).2
  | cons mv rest ih =>
    obtain ⟨hawake, hrest⟩ := Bool.and_eq_true_iff.1 hrest
    cases m with
    | zero => exact Bool.not_eq_true' _ ▸ hawake
    | succ m => exact ih hrest m

theorem idle_after {h : Harness M} {moves : List (Move M)}
    (hrest : comesToRest cfg h moves = true) (t : Task) (m : Nat) :
    ∃ n, m ≤ n ∧ (after cfg h moves n).step? cfg t = none := by
  induction moves generalizing h m with
  | nil =>
    refine ⟨m, Nat.le_refl m, ?_⟩
    rw [after_nil]
    exact idle_of_spawned (Bool.and_eq_true_iff.1 hrest).1 t
  | cons mv rest ih =>
    obtain ⟨n, hn, hnone⟩ := ih (Bool.and_eq_true_iff.1 hrest).2 m
    exact ⟨n + 1, Nat.le_succ_of_le hn, hnone⟩

theorem fair_after {h : Harness M} {moves : List (Move M)}
    (hrest : comesToRest cfg h moves = true) : Fair cfg (after cfg h moves) where
  steps t m := by
    obtain ⟨n, hn, hnone⟩ := idle_after hrest t m
    exact ⟨n, hn, .inl hnone⟩
  wakes m c x callback hx _ hactive := by
    have hawake := List.any_eq_false.1 (awake_after hrest m) x (List.mem_of_getElem? hx)
    exact absurd hactive hawake

/-- Each permit is held by one claim or free, so that no more callbacks run at the same time than
there are permits. However a callback ended, or if there is none, its claim gives the permit back,
and only while all permits are held may a claim that goes on be without one when no task can go on. A
callback begins once for each claim, and a wait has one claim at most; so it begins once for each tag
and each wait, if the broker gives out each tag once. In a fair run every claim is settled, whatever
became of those before it; one that has no callback breaks off. -/
theorem permits_come_back (hr : Run cfg allowed s) :
    (∀ n,
      (s n).claims.countP (·.stage.holdsPermit) + (s n).permits =
        max 1 cfg.settings.prefetchCount.toNat ∧
      (s n).claims.countP (·.stage.isActive) ≤ max 1 cfg.settings.prefetchCount.toNat ∧
      (∀ (c : Nat) (x : Claim M), (s n).claims[c]? = some x →
        (∀ result, x.stage = .running (.returned result) → (s n).GivesBack cfg c x .settled) ∧
        (x.stage = .granted → x.callback = none → (s n).GivesBack cfg c x .brokenOff)) ∧
      ((∀ t, (s n).step? cfg t = none) → ∀ x ∈ (s n).claims, x.stage.hasBegun = false →
        x.stage = .brokenOff ∧ x.callback = none ∨ (s n).permits = 0 ∧
          (s n).claims.countP (·.stage.holdsPermit) = max 1 cfg.settings.prefetchCount.toNat) ∧
      (∀ tag, (s n).calls.countP (·.begins tag) =
        (s n).claims.countP fun x => x.tag == tag && x.stage.hasBegun) ∧
      ∀ i, ((s n).claimsOf i).length ≤ 1) ∧
    ((∀ a, allowed a → a.forges = false) → ∀ n,
      (∀ tag, (s n).calls.countP (·.begins tag) ≤ 1) ∧ ∀ i, (s n).invocations i ≤ 1) ∧
    (Fair cfg s → ∀ (m c : Nat) (x : Claim M), (s m).claims[c]? = some x →
      ∃ n, m ≤ n ∧ (s n).claims[c]? = some { x with stage := x.lastStage }) := by
  refine ⟨fun n => ?_,
    fun hown n => ⟨hr.begun_le_one hown n, hr.invocations_le_one hown n⟩,
    fun hf m c x hx => ?_⟩
  · have hn := hr.reaches n
    have hall := hn.conserves.permits
    refine ⟨hall, ?_, fun c x hx => ⟨fun result => hn.settles hx, hn.breaks_off hx⟩,
      fun hidle x hx hs => ?_, (hr.attended n).begun, (hr.attended n).claimsOf_le_one⟩
    · have hholds : (s n).claims.countP (·.stage.isActive) ≤
          (s n).claims.countP (·.stage.holdsPermit) :=
        List.countP_mono_left fun x _ => ClaimStage.holdsPermit_of_active
      exact Nat.le_trans hholds (Nat.le_of_add_right_le (Nat.le_of_eq hall))
    · obtain hbroken | ⟨_, hzero⟩ := hn.spent_of_idle hidle hx hs
      · obtain ⟨_, _, _, _, hbinds⟩ := (hr.attended n).wait_of_claim hx
        exact .inl ⟨hbroken, (hbinds.fits.of_brokenOff hbroken).1⟩
      · refine .inr ⟨hzero, ?_⟩
        have hspent : (s n).claims.countP (·.stage.holdsPermit) + 0 = cfg.settings.permits :=
          hzero ▸ hall
        exact hspent
  · obtain ⟨n, stage, hn, hend, hover⟩ := hr.claim_ends hf hx
    have hlast : stage = x.lastStage :=
      (hr.attended n).lastStage (List.mem_of_getElem? hend) hover
    exact ⟨n, hn, hlast ▸ hend⟩

/-- Three messages are claimed at once, and there is one permit. The callback of the first claim
panics, the second has none, and that of the third panics too. -/
def mishaps : List (Move Bool) :=
  [.act (.call "a message" fun _ => .holds true), .act (.call "another" fun _ => .holds true),
    .act (.call "a third" fun _ => .holds true), .step (.wait 0), .step (.wait 1), .step (.wait 2),
    .step (.generation 0), .step (.wait 0), .step (.wait 1), .step (.wait 2),
    .act (.publishAll [[49], [50], [51]]), .step (.generation 0), .step (.generation 0),
    .step (.generation 0), .step (.claim 0), .step (.claim 1), .step (.claim 2),
    .step (.callback 0), .step (.generation 0), .step (.claim 0), .step (.claim 1),
    .step (.claim 2), .step (.callback 2), .step (.claim 2)]

/-- The second claim gets the permit of the first, whose callback panicked, and the third gets that of
the second, which breaks off. -/
theorem panics_return_permits : ∃ s : Nat → Harness Bool,
    Run .careless (fun a => a.isForeign = false) s ∧ Fair .careless s ∧
    (s 19).claims.countP (·.stage.holdsPermit) + (s 19).permits = 1 ∧
    (∃ h', (s 19).step? .careless (.claim 0) = some h' ∧ h'.permitQueue = [2]) ∧
    (∃ h', (s 20).step? .careless (.claim 1) = some h' ∧ h'.permitQueue = []) ∧
    (s 24).invocations 0 ≤ 1 ∧
    ∃ n x, 19 ≤ n ∧ (s n).claims[2]? = some x ∧ x.stage = .settled := by
  have hr : Run .careless _ (after .careless (initial .careless) mishaps) := run_after rfl
  have hf : Fair .careless (after .careless (initial .careless) mishaps) := fair_after rfl
  obtain ⟨hall, honce, hlast⟩ := permits_come_back hr
  refine ⟨_, hr, hf, (hall 19).1, ?_, ?_, (honce (fun _ => Act.genuine_of_own) 24).2 0, ?_⟩
  · exact (((hall 19).2.2.1 0 _ rfl).1 _ rfl).handed_on rfl
  · exact (((hall 20).2.2.1 1 _ rfl).2 rfl rfl).handed_on rfl
  · obtain ⟨n, hn, hsettled⟩ := hlast hf 19 2 _ rfl
    exact ⟨n, _, hn, hsettled, rfl⟩

end Harness
end Intercept
