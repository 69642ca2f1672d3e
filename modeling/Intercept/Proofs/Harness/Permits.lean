import Intercept.Proofs.Harness.Desk

/-! Permits: each is held by one claim or free, and a claim waits for one only while none is free. -/

namespace Intercept
variable {M : Type}

section
variable {claims : List (Claim M)} {c k : Nat} {x y : Claim M} {stage : ClaimStage}

theorem countP_holdsPermit_restage (hx : claims[c]? = some x) :
    (restage claims c stage).countP (·.stage.holdsPermit) + (if x.stage.holdsPermit then 1 else 0) =
      claims.countP (·.stage.holdsPermit) + if stage.holdsPermit then 1 else 0 :=
  countP_modify hx

theorem getElem?_restage (hx : claims[c]? = some x) :
    (restage claims c stage)[c]? = some { x with stage } := by
  rw [restage, List.getElem?_modify_eq, hx]
  rfl

theorem getElem?_restage_of_ne (hk : c ≠ k) : (restage claims c stage)[k]? = claims[k]? :=
  List.getElem?_modify_ne _ _ hk

end

/-! How the stage of a claim goes on. -/

namespace ClaimStage

/-- Whether a claim does not go on any more. -/
def isOver : ClaimStage → Bool
  | settled | brokenOff => true
  | _ => false

/-- The next stage of a claim that has this callback, or none. -/
inductive Goes (callback : Option (List Action)) : ClaimStage → ClaimStage → Prop
  | launched (actions : List Action) : callback = some actions →
    Goes callback claimed (running (.spawned actions))
  | queued : Goes callback claimed queued
  | granted : Goes callback queued granted
  | started (actions : List Action) : callback = some actions →
    Goes callback granted (running (.spawned actions))
  | ran (stage : CallbackStage) (rest : List Action) (clock : Nat) (openGates : List String) :
    stage.due? clock openGates = some rest →
    Goes callback (running stage) (running (Harness.perform clock openGates rest))
  | returned (result : Except Failure Unit) : Goes callback (running (.returned result)) settled
  | brokenOff : callback = none → Goes callback granted brokenOff
  | atOnce : callback = none → Goes callback claimed brokenOff

variable {callback : Option (List Action)} {stage stage' : ClaimStage}

/-- A claim lets go of its permit only as it comes to its last stage. -/
theorem Goes.holdsPermit (hg : Goes callback stage stage') (hs : stage.holdsPermit = true) :
    stage'.holdsPermit = true ∨ stage'.isOver = true := by
  cases hg with
  | returned _ | brokenOff _ => exact .inr rfl
  | _ => first | exact .inl rfl | cases hs

theorem Goes.not_over (hg : Goes callback stage stage') : stage.isOver = false := by
  cases hg <;> rfl

end ClaimStage

theorem CallbackStage.work_of_due {callback : CallbackStage} {rest : List Action} {clock : Nat}
    {openGates : List String} (hdue : callback.due? clock openGates = some rest) :
    rest.length + 2 ≤ Harness.CallbackStage.work callback := by
  cases callback with
  | spawned actions =>
    cases hdue
    exact Nat.le_succ _
  | sleeping wakeAt rest' =>
    obtain ⟨_, heq⟩ := Option.ite_none_right_eq_some.1 hdue
    cases heq
    exact Nat.le_refl _
  | gated gate rest' =>
    obtain ⟨_, heq⟩ := Option.ite_none_right_eq_some.1 hdue
    cases heq
    exact Nat.le_refl _
  | returned result => cases hdue

/-- A callback that goes on has at most these actions left to wait for. -/
theorem Harness.work_perform_le {clock : Nat} {openGates : List String} {actions : List Action} :
    CallbackStage.work (perform clock openGates actions) ≤ actions.length + 1 := by
  induction actions with
  | nil => exact Nat.le_refl _
  | cons a rest ih =>
    have hmore : CallbackStage.work (perform clock openGates rest) ≤ (a :: rest).length + 1 :=
      Nat.le_succ_of_le ih
    cases a with
    | sleep ms =>
      unfold perform
      split
      · exact hmore
      · exact Nat.le_refl _
    | pass gate =>
      unfold perform
      split
      · exact hmore
      · exact Nat.le_refl _
    | fail failure => exact Nat.le_add_left ..
    | panic reason => exact Nat.le_add_left ..

/-- Each stage leaves less to do than the one before it. -/
theorem ClaimStage.Goes.work_lt {callback : Option (List Action)} {stage stage' : ClaimStage}
    (hg : Goes callback stage stage') : Harness.ClaimStage.work (callback.getD []).length stage' <
      Harness.ClaimStage.work (callback.getD []).length stage := by
  cases hg with
  | ran stage rest clock openGates hdue =>
    exact Nat.lt_of_le_of_lt Harness.work_perform_le (CallbackStage.work_of_due hdue)
  | launched actions hcallback | started actions hcallback =>
    simp [hcallback, Harness.ClaimStage.work, Harness.CallbackStage.work]
  | _ => simp [Harness.ClaimStage.work, Harness.CallbackStage.work]

namespace Desk
variable {forged : Prop} {d d' : Desk M} {c free k limit : Nat} {x y : Claim M} {stage : ClaimStage}

/-! The permits. -/

/-- Each permit is held by one claim or free, and a claim is in the queue for one only while none
is free. -/
structure Conserves (limit : Nat) (d : Desk M) : Prop where
  permits : d.claims.countP (·.stage.holdsPermit) + d.permits = limit
  queue : Harness.Queued d.claims d.queue
  listed : ∀ (c : Nat) (x : Claim M), d.claims[c]? = some x → x.stage = .queued → c ∈ d.queue
  spent : d.queue ≠ [] → d.permits = 0

theorem Conserves.congr (hd : d.Conserves limit) (hclaims : d'.claims = d.claims)
    (hpermits : d'.permits = d.permits) (hqueue : d'.queue = d.queue) : d'.Conserves limit := by
  obtain ⟨claims, permits, queue, _⟩ := d'
  cases hclaims
  cases hpermits
  cases hqueue
  exact ⟨hd.permits, hd.queue, hd.listed, hd.spent⟩

/-- Whoever changes its stage outside the queue leaves the queue to the others. -/
theorem Conserves.listed_restage {stage : ClaimStage} (hd : d.Conserves limit)
    (hs : stage ≠ .queued) {k : Nat} {y : Claim M} (hy : (restage d.claims c stage)[k]? = some y)
    (hq : y.stage = .queued) : c ≠ k ∧ k ∈ d.queue := by
  obtain ⟨hk, hy⟩ | ⟨rfl, x, hx, rfl⟩ := getElem?_modify_some hy
  · exact ⟨hk, hd.listed k y hy hq⟩
  · exact absurd hq hs

/-- A claim goes on and passes its permit on to nobody. -/
theorem Conserves.restage {stage : ClaimStage} {permits : Nat} (hd : d.Conserves limit)
    (hx : d.claims[c]? = some x) (hold : x.stage ≠ .queued) (hnew : stage ≠ .queued)
    (hcount : permits + (if stage.holdsPermit then 1 else 0) =
      d.permits + if x.stage.holdsPermit then 1 else 0)
    (hspent : d.queue ≠ [] → permits = 0) :
    ({ d with claims := Intercept.restage d.claims c stage, permits } : Desk M).Conserves limit where
  permits := by
    have hcountP : (Intercept.restage d.claims c stage).countP (·.stage.holdsPermit) + _ = _ :=
      countP_holdsPermit_restage hx
    have hlimit := hd.permits
    change (Intercept.restage d.claims c stage).countP (·.stage.holdsPermit) + permits = limit
    omega
  queue := hd.queue.restage (hd.queue.not_mem hx hold)
  listed _ _ hy hq := (hd.listed_restage hnew hy hq).2
  spent := hspent

/-- A claim joins the queue. -/
theorem Conserves.push (hd : d.Conserves limit) (hx : d.claims[c]? = some x)
    (hs : x.stage = .claimed) (hzero : d.permits = 0) : ({ d with
      claims := Intercept.restage d.claims c .queued
      queue := d.queue ++ [c] } : Desk M).Conserves limit where
  permits := by
    have hcountP : (Intercept.restage d.claims c .queued).countP (·.stage.holdsPermit) +
        (if x.stage.holdsPermit then 1 else 0) = d.claims.countP (·.stage.holdsPermit) + 0 :=
      countP_holdsPermit_restage hx
    have hlimit := hd.permits
    rw [hs] at hcountP
    exact (congrArg (· + d.permits) hcountP).trans hlimit
  queue := hd.queue.push hx (hd.queue.not_mem hx (by simp [hs]))
  listed k y hy hq := by
    obtain ⟨_, hy⟩ | ⟨rfl, _⟩ := getElem?_modify_some hy
    · exact List.mem_append_left _ (hd.listed k y hy hq)
    · exact List.mem_append_right _ (List.mem_singleton_self _)
  spent _ := hzero

/-- The last stage of a claim neither holds a permit nor waits for one. -/
theorem Finishes.over (hl : Finishes limit x stage free) : stage.isOver = true ∧
    stage.holdsPermit = false ∧ stage ≠ .queued ∧ x.stage ≠ .queued ∧
      x.stage.Goes x.callback stage := by
  cases hl with
  | settled result hs => simpa [hs, ClaimStage.isOver, ClaimStage.holdsPermit] using .returned result
  | brokenOff hs hnone =>
    simpa [hs, ClaimStage.isOver, ClaimStage.holdsPermit] using .brokenOff hnone
  | atOnce hs hnone _ => simpa [hs, ClaimStage.isOver, ClaimStage.holdsPermit] using .atOnce hnone

/-- With its permit, a claim that leaves accounts for all that were free or its own. -/
theorem Finishes.free_eq (hl : Finishes limit x stage free) :
    free + 1 = limit + if x.stage.holdsPermit then 1 else 0 := by
  cases hl with
  | settled result hs => simp [hs, ClaimStage.holdsPermit]
  | brokenOff hs _ => simp [hs, ClaimStage.holdsPermit]
  | atOnce hs _ hpos =>
    simp only [hs, ClaimStage.holdsPermit, Bool.false_eq_true, if_false]
    omega

/-- A claim leaves, and its permit goes to the first of the queue. -/
theorem Conserves.pass {next : Nat} {rest : List Nat} (hd : d.Conserves limit)
    (hx : d.claims[c]? = some x) (hl : Finishes d.permits x stage free)
    (hqueue : d.queue = next :: rest) : ({ d with
      claims := Intercept.restage (Intercept.restage d.claims c stage) next .granted
      permits := free
      queue := rest } : Desk M).Conserves limit := by
  obtain ⟨_, hidle, hnew, hold, _⟩ := hl.over
  have hfree := hl.free_eq
  have hleaves : Harness.Queued (Intercept.restage d.claims c stage) d.queue :=
    hd.queue.restage (hd.queue.not_mem hx hold)
  rw [hqueue] at hleaves
  obtain ⟨z, hz, hzs, hrest⟩ := hleaves.pop
  constructor
  · have hleft : (Intercept.restage d.claims c stage).countP (·.stage.holdsPermit) +
        (if x.stage.holdsPermit then 1 else 0) = d.claims.countP (·.stage.holdsPermit) +
        if stage.holdsPermit then 1 else 0 :=
      countP_holdsPermit_restage hx
    have hgot : (Intercept.restage (Intercept.restage d.claims c stage) next .granted).countP
        (·.stage.holdsPermit) + (if z.stage.holdsPermit then 1 else 0) =
        (Intercept.restage d.claims c stage).countP (·.stage.holdsPermit) + 1 :=
      countP_holdsPermit_restage hz
    have hlimit := hd.permits
    have hnone : (if z.stage.holdsPermit then 1 else 0) = 0 := by
      rw [hzs]
      rfl
    simp only [hidle, Bool.false_eq_true, if_false] at hleft
    change (Intercept.restage (Intercept.restage d.claims c stage) next .granted).countP
      (·.stage.holdsPermit) + free = limit
    omega
  · exact hrest .granted
  · intro k y hy hq
    obtain ⟨hk, hy⟩ | ⟨rfl, _, _, rfl⟩ := getElem?_modify_some hy
    · have hmem := (hd.listed_restage hnew hy hq).2
      rw [hqueue] at hmem
      exact (List.mem_cons.1 hmem).resolve_left (Ne.symm hk)
    · cases hq
  · intro _
    have hzero := hd.spent (by simp [hqueue])
    have hone : (if x.stage.holdsPermit then 1 else 0) ≤ 1 := by split <;> simp
    change free = 0
    omega

theorem Conserves.service (hd : d.Conserves limit) (hx : d.claims[c]? = some x)
    (hs : d.Service c x d') : d'.Conserves limit := by
  cases hs with
  | launched actions hst _ hpos =>
    refine hd.restage hx (by simp [hst]) ClaimStage.noConfusion ?_ fun hq => ?_
    · simp only [hst, ClaimStage.holdsPermit, if_true, Bool.false_eq_true, if_false]
      omega
    · have hzero := hd.spent hq
      omega
  | queued hst hzero => exact hd.push hx hst hzero
  | started actions hst _ =>
    refine hd.restage hx (by simp [hst]) ClaimStage.noConfusion ?_ hd.spent
    simp [hst, ClaimStage.holdsPermit]
  | ran callback actions hst hdue =>
    refine hd.restage hx (by simp [hst]) ClaimStage.noConfusion ?_ hd.spent
    simp [hst, ClaimStage.holdsPermit]
  | returned stage free hl hqueue =>
    obtain ⟨_, hidle, hnew, hold, _⟩ := hl.over
    refine hd.restage hx hold hnew ?_ fun hq => absurd hqueue hq
    rw [hidle]
    exact hl.free_eq
  | handedOn stage free next rest hl hqueue => exact hd.pass hx hl hqueue

/-- A new claim has no permit and is not in the queue. -/
theorem Conserves.claim (hd : d.Conserves limit) (hs : x.stage = .claimed) :
    ({ d with claims := d.claims ++ [x] } : Desk M).Conserves limit where
  permits := by
    change (d.claims ++ [x]).countP (·.stage.holdsPermit) + d.permits = limit
    rw [List.countP_append]
    simpa [hs, ClaimStage.holdsPermit] using hd.permits
  queue := hd.queue.append
  listed c y hy hq := by
    obtain hlt | hle := Nat.lt_or_ge c d.claims.length
    · rw [List.getElem?_append_left hlt] at hy
      exact hd.listed c y hy hq
    · rw [List.getElem?_append_right hle] at hy
      have hxy : x = y := List.mem_singleton.1 (List.mem_of_getElem? hy) |>.symm
      cases hxy
      rw [hs] at hq
      cases hq
  spent := hd.spent

theorem Conserves.errand (hd : d.Conserves limit) (he : d.Errand forged d') :
    d'.Conserves limit := by
  cases he with
  | filled count hf =>
    rw [hf.same]
    exact hd.congr rfl rfl rfl
  | claimed x inbox hs _ => exact (hd.claim hs).congr rfl rfl rfl
  | served c x hx hs => exact hd.service hx hs
  | _ => exact hd.congr rfl rfl rfl

/-! The deliveries. -/

/-- The broker gives out each tag once, and at most one claim is made on it. -/
def Fresh (d : Desk M) : Prop :=
  (claimTags d.claims ++ d.inbox).Subperm (List.range' 1 d.lastTag)

theorem claimTags_service (hs : d.Service c x d') :
    claimTags d'.claims = claimTags d.claims ∧ d'.inbox = d.inbox ∧ d'.lastTag = d.lastTag := by
  cases hs <;> simp [claimTags_restage]

theorem Fresh.filled {count : Nat} (hf : d.Fresh) (hn : d.Filled count d') : d'.Fresh := by
  have hsub := (List.subperm_append_left (claimTags d.claims)).2 hn.inbox
  rw [← List.append_assoc] at hsub
  have hall := hsub.trans ((List.subperm_append_right _).2 hf)
  rw [Nat.add_comm d.lastTag 1, List.range'_append_1] at hall
  rw [hn.same]
  exact hall

theorem Fresh.errand (hf : d.Fresh) (he : d.Errand False d') : d'.Fresh := by
  cases he with
  | none => exact hf
  | ticked => exact hf
  | opened gate => exact hf
  | filled count hn => exact hf.filled hn
  | forged inbox hfalse => exact hfalse.elim
  | routed inbox hin => exact ((List.subperm_append_left _).2 hin).trans hf
  | claimed x inbox _ hin =>
    have hperm : (claimTags (d.claims ++ [x]) ++ inbox).Perm (claimTags d.claims ++ d.inbox) := by
      rw [claimTags, List.map_append, List.append_assoc]
      exact hin.append_left _
    exact hperm.subperm.trans hf
  | served c x _ hs =>
    obtain ⟨hclaims, hin, hlast⟩ := claimTags_service hs
    rw [Fresh, hclaims, hin, hlast]
    exact hf

theorem Fresh.distinct (hf : d.Fresh) : (claimTags d.claims).Nodup := by
  have hsub := (List.sublist_append_left ..).subperm.trans hf
  exact List.nodup_iff_count_le_one.2 fun t =>
    Nat.le_trans (hsub.count_le t) (List.nodup_iff_count_le_one.1 List.nodup_range' t)

/-! One claim after another. -/

/-- Whoever is served gets to its next stage, and nobody else but the first of the queue does. -/
theorem Conserves.goes_of_service (hd : d.Conserves limit) (hx : d.claims[c]? = some x)
    (hs : d.Service c x d') : ∃ stage, d'.claims[c]? = some { x with stage } ∧
      x.stage.Goes x.callback stage := by
  cases hs with
  | launched actions hst hcallback =>
    exact ⟨_, getElem?_restage hx, hst ▸ .launched actions hcallback⟩
  | queued hst => exact ⟨_, getElem?_restage hx, hst ▸ .queued⟩
  | started actions hst hcallback => exact ⟨_, getElem?_restage hx, hst ▸ .started actions hcallback⟩
  | ran callback actions hst hdue =>
    exact ⟨_, getElem?_restage hx, hst ▸ .ran callback actions d.clock d.openGates hdue⟩
  | returned stage free hl =>
    obtain ⟨_, _, _, _, hgoes⟩ := hl.over
    exact ⟨stage, getElem?_restage hx, hgoes⟩
  | handedOn stage free next rest hl hqueue =>
    obtain ⟨_, _, _, hold, hgoes⟩ := hl.over
    have hnext : next ≠ c := by
      rintro rfl
      have hmem : next ∈ d.queue := by simp [hqueue]
      exact hd.queue.not_mem hx hold hmem
    exact ⟨stage, (getElem?_restage_of_ne hnext).trans (getElem?_restage hx), hgoes⟩

/-- Nobody else does, but the first of the queue may get the permit. -/
theorem getElem?_service_of_ne (hs : d.Service c x d') (hk : c ≠ k)
    (hy : d.claims[k]? = some y) : d'.claims[k]? = some y ∨
      (∃ rest, d.queue = k :: rest) ∧ d'.claims[k]? = some { y with stage := .granted } := by
  cases hs with
  | handedOn stage free next rest _ hqueue =>
    have hleft : (restage d.claims c stage)[k]? = some y := (getElem?_restage_of_ne hk).trans hy
    obtain rfl | hnext := eq_or_ne next k
    · exact .inr ⟨⟨rest, hqueue⟩, getElem?_restage hleft⟩
    · exact .inl ((getElem?_restage_of_ne hnext).trans hleft)
  | _ => exact .inl ((getElem?_restage_of_ne hk).trans hy)

theorem Conserves.goes_of_errand (hd : d.Conserves limit) (he : d.Errand forged d')
    (hx : d.claims[c]? = some x) : ∃ stage, d'.claims[c]? = some { x with stage } ∧
      (stage = x.stage ∨ x.stage.Goes x.callback stage) := by
  cases he with
  | filled count hf => exact ⟨x.stage, (congrArg (·.claims[c]?) hf.same).trans hx, .inl rfl⟩
  | claimed y inbox _ _ =>
    exact ⟨x.stage, (List.getElem?_append_left (List.getElem?_eq_some_iff.1 hx).1).trans hx, .inl rfl⟩
  | served k y hy hs =>
    obtain rfl | hk := eq_or_ne k c
    · cases hy.symm.trans hx
      obtain ⟨stage, hstage, hgoes⟩ := hd.goes_of_service hx hs
      exact ⟨stage, hstage, .inr hgoes⟩
    · obtain hsame | ⟨⟨rest, hqueue⟩, hgranted⟩ := getElem?_service_of_ne hs hk hx
      · exact ⟨x.stage, hsame, .inl rfl⟩
      · obtain ⟨z, hz, hzs⟩ := hd.queue.queued c (by simp [hqueue])
        cases hz.symm.trans hx
        exact ⟨.granted, hgranted, .inr (hzs ▸ .granted)⟩
  | _ => exact ⟨x.stage, hx, .inl rfl⟩

end Desk

namespace Harness
variable {cfg : Setup M} {allowed : Act M → Prop} {h h' : Harness M} {c i : Nat} {x : Claim M}

theorem conserves_initial : (initial cfg).desk.Conserves cfg.settings.permits where
  permits := Nat.zero_add _
  queue := ⟨List.nodup_nil, fun _ hc => absurd hc List.not_mem_nil⟩
  listed _ _ hx := by cases hx
  spent hq := absurd rfl hq

theorem Reaches.conserves (hr : Reaches cfg allowed h) : h.desk.Conserves cfg.settings.permits := by
  have hstep {h h' : Harness M} (hd : h.desk.Conserves cfg.settings.permits)
      (hm : Moves cfg allowed h h') : h'.desk.Conserves cfg.settings.permits :=
    hd.errand (errand_of_moves (fun _ _ _ => trivial) hm)
  induction hr with
  | initial => exact conserves_initial
  | act a _ hallowed hact ih => exact hstep ih (.act a hallowed hact)
  | step t _ hs ih => exact hstep ih (.step t hs)
  | tick _ ih => exact hstep ih .tick

theorem Reaches.fresh (hr : Reaches cfg allowed h) (hown : ∀ a, allowed a → a.forges = false) :
    h.desk.Fresh := by
  have hstep {h h' : Harness M} (hd : h.desk.Fresh) (hm : Moves cfg allowed h h') : h'.desk.Fresh :=
    hd.errand (errand_of_moves (fun a ha hf => by simp [hown a ha] at hf) hm)
  induction hr with
  | initial => exact List.nil_subperm
  | act a _ hallowed hact ih => exact hstep ih (.act a hallowed hact)
  | step t _ hs ih => exact hstep ih (.step t hs)
  | tick _ ih => exact hstep ih .tick

end Harness
end Intercept
