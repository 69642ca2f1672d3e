import Intercept.Proofs.Harness.History

/-! Failures that come late, after a ledger pass that might have rejected them: each waits for exactly
one pass to come, or is rejected at once if there is none to come. -/
namespace Intercept
variable {M : Type}

/-- A failure that is rejected at once is off the ledger. -/
theorem Claim.Settling.at_once {x : Claim M} {past : Prop} {b b' : Broker Nat} {l l' : Ledger}
    {failure : Failure} {ends : Bool} (hs : x.Settling past b l (.error failure) b' l' ends)
    (hpast : past) :
    l.Ended l' x.tag .alreadyNacked ∧ (ends = false → x.tag ∈ b'.nacked) := by
  cases hs with
  | rejected _ _ _ _ _ he _ _ hnacked _ => exact ⟨he, fun _ => (hnacked x.tag).2 (.inr rfl)⟩
  | dropped _ _ _ he => exact ⟨he, nofun⟩
  | deferred _ _ hrunning _ => exact (hrunning hpast).elim

/-- A plan names no tag that the passes have reached, unless its failure waits. -/
theorem Ledger.Sound.not_named {l : Ledger} {r : Nat × Bool} {t : Nat} (hl : l.Sound)
    (hreach : t ≤ l.previouslyNackedThrough) (hnone : t ∉ l.shouldNack)
    (hr : r ∈ l.plan.rejects) : r.1 ≠ t := by
  rintro rfl
  rcases (hl.due_reject hr).2.2 with hmem | ⟨hlt, _⟩
  · exact hnone hmem
  · omega

/-- A setup whose callback fails. -/
def Setup.failing : Setup Unit :=
  { Setup.bare with callback := fun _ _ => some [.fail ⟨"refused", []⟩] }

namespace Harness
variable {cfg : Setup M} {loud : Prop} {h h' : Harness M} {s : Nat → Harness M}
  {c g k m n t : Nat} {x : Claim M} {failure : Failure} {e : HarnessError}

/-- No ledger pass runs from one moment on until another. -/
def Unpassed (cfg : Setup M) (s : Nat → Harness M) (k n : Nat) : Prop :=
  ∀ j g, k ≤ j → j < n → ¬ (s j).Passes cfg g (s (j + 1))

section
variable (hr : Run cfg (fun a => a.isForeign = false) s)
include hr

/-- A delivery that a claim is open on, or whose failure waits, was being processed when the most
recent pass ran, unless it came after that pass. -/
theorem Run.last_pass (ht : t ∈ (s n).ledger.processing ∨ t ∈ (s n).ledger.shouldNack)
    (hle : t ≤ (s n).ledger.previouslyNackedThrough) :
    ∃ k g, k < n ∧ (s k).Passes cfg g (s (k + 1)) ∧ Unpassed cfg s (k + 1) n ∧
      t ∈ (s k).ledger.processing := by
  induction n with
  | zero =>
    rw [hr.start] at ht
    rcases ht with ht | ht <;> exact (TagSet.not_mem_empty t ht).elim
  | succ n ih =>
    by_cases hpass : ∃ g, (s n).Passes cfg g (s (n + 1))
    · obtain ⟨g, hpass⟩ := hpass
      obtain ⟨before, after, _, hpassed⟩ := hr.passed hpass
      refine ⟨n, g, Nat.lt_succ_self n, hpass, fun j g' hj hjn => by omega, ?_⟩
      rw [hpassed.ledger] at ht
      rcases ht with ht | ht
      · exact ht
      · exact (TagSet.not_mem_empty t ht).elim
    · have hnone : ∀ g, ¬ (s n).Passes cfg g (s (n + 1)) := fun g hg => hpass ⟨g, hg⟩
      have hb := hr.bides n hnone
      rw [hb.previous] at hle
      have howed : t ∈ (s n).ledger.processing ∨ t ∈ (s n).ledger.shouldNack := by
        rcases ht with ht | ht
        · rcases hb.processing t ht with ht | ⟨hlt, _⟩
          · exact .inl ht
          · omega
        · exact (hb.shouldNack t ht).symm
      obtain ⟨k, g, hk, hkpass, hun, hproc⟩ := ih howed hle
      refine ⟨k, g, by omega, hkpass, fun j g' hj hjn => ?_, hproc⟩
      by_cases hjn' : j = n
      · subst hjn'
        exact hnone g'
      · exact hun j g' hj (by omega)

/-- A failure was recorded while its delivery was being processed. -/
theorem Run.recorded (hle : k ≤ n) (hbefore : t ∉ (s k).ledger.shouldNack)
    (ht : t ∈ (s n).ledger.shouldNack) :
    ∃ j, k ≤ j ∧ j < n ∧ t ∈ (s j).ledger.processing ∧ t ∈ (s (j + 1)).ledger.shouldNack := by
  induction n, hle using Nat.le_induction with
  | base => exact (hbefore ht).elim
  | succ n hle ih =>
    have hb : (s n).Bides (s (n + 1)) := by
      refine hr.bides n fun g hpass => ?_
      obtain ⟨_, _, _, hpassed⟩ := hr.passed hpass
      rw [hpassed.ledger] at ht
      exact TagSet.not_mem_empty t ht
    rcases hb.shouldNack t ht with hold | hproc
    · obtain ⟨j, hkj, hjn, hj⟩ := ih hold
      exact ⟨j, hkj, by omega, hj⟩
    · exact ⟨n, hle, Nat.lt_succ_self n, hproc, ht⟩

/-- A failure waits for the next pass. -/
theorem Run.waits (hle : n ≤ m) (hun : Unpassed cfg s n m) (ht : t ∈ (s n).ledger.shouldNack) :
    t ∈ (s m).ledger.shouldNack := by
  induction m, hle using Nat.le_induction with
  | base => exact ht
  | succ m hle ih =>
    have hb := hr.bides m fun g => hun m g hle (Nat.lt_succ_self m)
    exact hb.kept t (ih fun j g hj hjm => hun j g hj (by omega))

/-- The reach of the passes grows. -/
theorem Run.previous_of_le (hle : m ≤ n) :
    (s m).ledger.previouslyNackedThrough ≤ (s n).ledger.previouslyNackedThrough := by
  induction n, hle using Nat.le_induction with
  | base => exact Nat.le_refl _
  | succ n _ ih =>
    refine Nat.le_trans ih ?_
    by_cases hpass : ∃ g, (s n).Passes cfg g (s (n + 1))
    · obtain ⟨g, hpass⟩ := hpass
      obtain ⟨_, _, _, hpassed⟩ := hr.passed hpass
      rw [hpassed.ledger]
      exact (hr.settled n).books.sound.previous_le
    · exact Nat.le_of_eq (hr.bides n fun g hg => hpass ⟨g, hg⟩).previous.symm

/-- A delivery that is being processed was so before, or came after all passes until then. -/
theorem Run.processing_or (hle : k ≤ n) (ht : t ∈ (s n).ledger.processing) :
    t ∈ (s k).ledger.processing ∨ (s k).ledger.previouslyNackedThrough < t := by
  induction n, hle using Nat.le_induction with
  | base => exact .inl ht
  | succ n hle ih =>
    by_cases hpass : ∃ g, (s n).Passes cfg g (s (n + 1))
    · obtain ⟨g, hpass⟩ := hpass
      obtain ⟨_, _, _, hpassed⟩ := hr.passed hpass
      rw [hpassed.ledger] at ht
      exact ih ht
    · rcases (hr.bides n fun g hg => hpass ⟨g, hg⟩).processing t ht with ht | ⟨hlt, _⟩
      · exact ih ht
      · have := hr.previous_of_le hle
        exact .inr (by omega)

/-- No plan that was carried out before covers a delivery that is being processed. -/
theorem Run.uncovered (hk : k < n) (hpass : (s k).Passes cfg g (s (k + 1)))
    (ht : t ∈ (s n).ledger.processing) :
    ∀ r ∈ (s k).ledger.plan.rejects, Broker.covers r.1 r.2 t = false := by
  intro r hmem
  have hsound := (hr.settled k).books.sound
  obtain ⟨_, _, _, hpassed⟩ := hr.passed hpass
  have hor := hr.processing_or (k := k + 1) hk ht
  rw [hpassed.ledger] at hor
  rcases hor with hproc | hlt
  · exact hsound.not_covered hmem hproc
  · apply Bool.eq_false_iff.2
    intro hcov
    have hle := Broker.le_of_covers hcov
    have hdue := (hsound.due_reject hmem).2.1
    change (s k).ledger.lastObserved < t at hlt
    omega

/-- A delivery that the passes have reached and that nobody is to settle any more stays so. -/
theorem Run.dismissed (hle : n ≤ m) (hreach : t ≤ (s n).ledger.previouslyNackedThrough)
    (hnone : t ∉ (s n).ledger.processing ∧ t ∉ (s n).ledger.shouldNack) :
    t ∉ (s m).ledger.processing ∧ t ∉ (s m).ledger.shouldNack := by
  induction m, hle using Nat.le_induction with
  | base => exact hnone
  | succ m hle ih =>
    by_cases hpass : ∃ g, (s m).Passes cfg g (s (m + 1))
    · obtain ⟨g, hpass⟩ := hpass
      obtain ⟨_, _, _, hpassed⟩ := hr.passed hpass
      rw [hpassed.ledger]
      exact ⟨ih.1, TagSet.not_mem_empty t⟩
    · have hb := hr.bides m fun g hg => hpass ⟨g, hg⟩
      have := hr.previous_of_le hle
      refine ⟨fun ht => ?_, fun ht => ?_⟩
      · rcases hb.processing t ht with ht | ⟨hlt, _⟩
        · exact ih.1 ht
        · omega
      · rcases hb.shouldNack t ht with ht | ht
        · exact ih.2 ht
        · exact ih.1 ht

/-- A generation that is not over has not run its pass. -/
theorem Run.pass_to_come {x : Generation} (hf : (s n).failure = none)
    (hx : (s n).generations[g]? = some x) (hover : x.life.state.isTerminal = false) (hk : k < n) :
    ¬ (s k).Passes cfg g (s (k + 1)) := by
  intro hpass
  obtain ⟨_, _, _, hpassed⟩ := hr.passed hpass
  have hcompleted : (s n).Completed g :=
    (hr.grows hk).completed (hpassed.unfailed (hr.unfailed_of_le hk hf)).2.1
  have hlife := lives_of_some hx
  rw [Completed, life_of_some hlife] at hcompleted
  have hsignalled := (hr.attended n).signalled _ (List.mem_of_getElem? hlife)
  have hpending : x.life.fullyStopped = .pending := by
    refine hsignalled.stopping ?_
    cases hs : x.life.state <;> simp_all [GenerationState.isTerminal]
  rw [hpending] at hcompleted
  cases hcompleted

end

/-! No pass comes after the harness has failed with all its generations over. -/

/-- The harness has failed, and its generations are over. -/
structure Spent (h : Harness M) : Prop where
  failed : h.failure ≠ none
  ended : ∀ st ∈ h.generations.map (·.stage), st = .ended

theorem stages_changeLife {φ : Lifecycle → Lifecycle} :
    (h.changeLife g φ).generations.map (·.stage) = h.generations.map (·.stage) := by
  apply List.ext_getElem?
  intro k
  simp only [changeLife, changeGeneration, List.getElem?_map, List.getElem?_modify]
  cases h.generations[k]? with
  | none => rfl
  | some x =>
    by_cases hk : g = k
    · simp [hk]
    · simp [hk]

theorem stages_fail :
    (h.fail e).generations.map (·.stage) = h.generations.map (·.stage) := by
  rw [fail]
  cases h.failure with
  | some _ => rfl
  | none =>
    simp only
    cases h.current with
    | none =>
      obtain ⟨waits, heq⟩ := shutDown_eq ({ h with failure := some e, current := none } :
        Harness M) (.error e)
      rw [heq]
    | some g =>
      obtain ⟨waits, heq⟩ := shutDown_eq ({ h.changeLife g (·.setException e) with
        failure := some e, current := none } : Harness M) (.error e)
      rw [heq]
      exact @stages_changeLife M h g (·.setException e)

theorem Deed.spent (hd : Deed loud h h') (hs : h.Spent) : h'.Spent := by
  refine ⟨failure_deeds hd.one hs.failed, ?_⟩
  have hchange : ∀ {φ : Generation → Generation} (g : Nat),
      (∀ x, h.generations[g]? = some x → x.stage = .ended → (φ x).stage = .ended) →
      ∀ st ∈ (h.generations.modify g φ).map (·.stage), st = .ended := by
    intro φ g hφ st hst
    obtain ⟨y, hy, rfl⟩ := List.mem_map.1 hst
    obtain ⟨k, hk⟩ := List.getElem?_of_mem hy
    rcases getElem?_modify_some hk with ⟨_, hk⟩ | ⟨rfl, x, hx, rfl⟩
    · exact hs.ended _ (List.mem_map_of_mem (List.mem_of_getElem? hk))
    · exact hφ x hx (hs.ended _ (List.mem_map_of_mem (List.mem_of_getElem? hx)))
  cases hd with
  | quiet hscene =>
    simp only [scene, Prod.mk.injEq] at hscene
    rw [hscene.2.2.2.2.2.2.1]
    exact hs.ended
  | received g d _ => exact hchange g fun _ _ hst => hst
  | moved g φ hφ => exact hchange g fun x hx => (hφ x hx).ended
  | created i w hnone _ _ _ => exact (hs.failed hnone).elim
  | began c x actions _ _ =>
    obtain ⟨notes, heq, _⟩ := act_eq (h.noteCall (.began x.tag x.message)) c x actions
    rw [heq]
    exact hs.ended
  | resumed c x actions _ _ =>
    obtain ⟨notes, heq, _⟩ := act_eq h c x actions
    rw [heq]
    exact hs.ended
  | _ => exact hs.ended

theorem Deeds.spent (hd : Deeds loud h h') (hs : h.Spent) : h'.Spent := by
  induction hd with
  | refl => exact hs
  | tail _ hone ih => exact hone.spent ih

theorem Spent.stage {y : Generation} (hs : h.Spent) (hy : h.generations[g]? = some y) :
    y.stage = .ended :=
  hs.ended _ (List.mem_map_of_mem (List.mem_of_getElem? hy))

theorem Turn.spent (ht : h.Turn cfg h') (hs : h.Spent) : h'.Spent := by
  have hserves : ∀ {g : Nat} {d : Delivery} {rest : List Delivery} {y : Generation},
      ¬ h.Serves g d rest y := by
    intro g d rest y hserves
    obtain ⟨deadline, hrouting⟩ := hserves.routing
    rw [hs.stage hserves.found] at hrouting
    cases hrouting
  rcases ht with hd | ⟨g, d, h₁, hr, _⟩
  · exact hd.spent hs
  · cases hr with
    | unclaimed _ _ _ hd => exact (hserves hd).elim
    | claimed _ _ _ _ _ _ hd _ _ _ => exact (hserves hd).elim

theorem Spent.no_pass (hs : h.Spent) (hi : h.Settled) : ¬ h.Passes cfg g h' := by
  intro hpass
  cases hpass with
  | abandoned y hy hadmitted _ =>
    have hended := hs.stage hy
    rcases hadmitted with hst | ⟨_, _, hst, _⟩ <;> rw [hst] at hended <;> cases hended
  | left _ _ _ c _ _ _ _ hc _ =>
    exact hs.failed (hi.unfailed_of_channel (.inl (by simp [hc]))).1
  | released c hheld _ => exact hs.failed (hi.unfailed_of_channel (.inr (by simp [hheld]))).1

theorem Run.no_pass (hr : Run cfg (fun a => a.isForeign = false) s) (hle : n ≤ m)
    (hs : (s n).Spent) : ¬ (s m).Passes cfg g (s (m + 1)) := by
  refine Spent.no_pass ?_ (hr.settled m)
  induction m, hle using Nat.le_induction with
  | base => exact hs
  | succ m _ ih => exact (hr.turn m).spent ih

/-! A failure is rejected at once. -/

theorem conclude_at_once (ha : h.Attended cfg) (hi : h.Settled) (hp : h.Paired)
    (hf : h.failure = none) (hover : h.Over) (hx : h.claims[c]? = some x)
    (hs : x.stage = .running (.returned (.error failure)))
    (hstep : h.step? cfg (.claim c) = some h') :
    h.ledger.Ended h'.ledger x.tag .alreadyNacked ∧ (x.tag ∈ h'.broker.nacked ∨ h'.Spent) := by
  have hconclusion : h.Conclusion cfg c x (.error failure) h' := by
    have hstep : h.stepClaim? cfg c = some h' := hstep
    rw [stepClaim?, hx, Option.bind_eq_bind, Option.bind_some, hs] at hstep
    rw [← Option.some.inj hstep]
    exact conclusion_of_returned ha hi hx hs
  cases hconclusion with
  | goesOn outcome broker ledger hsettling hmid =>
    have hreturn : Deeds False (h.answered c x outcome broker ledger) _ := deeds_returnPermit _
    obtain ⟨htidy, _⟩ := hreturn.tidy hmid
    obtain ⟨hended, hnacked⟩ := hsettling.at_once hover
    rw [htidy.ledger, htidy.nacked]
    exact ⟨hended, .inl (hnacked rfl)⟩
  | ends outcome broker ledger e hsettling hmid =>
    obtain ⟨htidy, _⟩ := (deeds_failed (e := e) hmid).tidy hmid
    have hspent : ((h.answered c x outcome broker ledger).fail (.transport e)).Spent := by
      refine ⟨failure_fail _ _, ?_⟩
      rw [stages_fail]
      intro st hst
      obtain ⟨y, hy, rfl⟩ := List.mem_map.1 hst
      obtain ⟨g, hg⟩ := List.getElem?_of_mem hy
      obtain ⟨f, hl⟩ := hi.live hf
      exact hl.all_ended hp hf hover hg
    have hreturn : Deeds True ((h.answered c x outcome broker ledger).fail (.transport e)) _ :=
      deeds_returnPermit _
    rw [htidy.ledger]
    exact ⟨(hsettling.at_once hover).1, .inr (hreturn.spent hspent)⟩

/-- No later plan covers what was rejected at once: none names it, and a batch finds it settled. -/
theorem Run.not_covered_later (hr : Run cfg (fun a => a.isForeign = false) s) (hlt : n < m)
    (hreach : x.tag ≤ (s n).ledger.previouslyNackedThrough)
    (hended : (s n).ledger.Ended (s (n + 1)).ledger x.tag .alreadyNacked)
    (hdone : x.tag ∈ (s (n + 1)).broker.nacked ∨ (s (n + 1)).Spent)
    (hpass : (s m).Passes cfg g (s (m + 1))) :
    x.tag ∉ (s m).broker.tags ∧ ∀ r ∈ (s m).ledger.plan.rejects, r.1 ≠ x.tag := by
  have hsound := (hr.settled n).books.sound
  have hnone : x.tag ∉ (s (n + 1)).ledger.processing ∧ x.tag ∉ (s (n + 1)).ledger.shouldNack := by
    refine ⟨fun ht => ((hended.processing _).1 ht).2 rfl, fun ht => ?_⟩
    have hold := hended.shouldNack_of_ne (by simp) ht
    exact (hsound.shouldNack_apart _ hold).2 hended.mem
  have hreach' : x.tag ≤ (s (n + 1)).ledger.previouslyNackedThrough := hended.previous ▸ hreach
  constructor
  · rcases hdone with hnacked | hspent
    · have hm := (hr.settled_of_le hlt).2 _ hnacked
      have hnodup := (List.nodup_append.1 (hr.settled m).books.balanced.nodup).2.2
      exact fun ht => hnodup _ (List.mem_append_right _ hm) _ ht rfl
    · exact (hr.no_pass hlt hspent hpass).elim
  · intro r hmem
    exact (hr.settled m).books.sound.not_named
      (Nat.le_trans hreach' (hr.previous_of_le hlt)) (hr.dismissed hlt hreach' hnone).2 hmem

/-- Each failure of a callback has exactly one that rejects it. A failure that waits for a pass is
unsettled. If the passes had reached its tag before, then it was being processed when the most
recent of them ran, its failure was recorded later, and no reject has covered it. As long as the
harness has not failed, the current generation is not over and its pass is still to come, and the
next pass to run rejects what waits. A failure that is rejected at once had been reached by passes,
none of whose plans covered it, and no later plan does: none names it, and a batch finds it
settled. -/
theorem late_failures_rejected_once (hr : Run cfg (fun a => a.isForeign = false) s) (n : Nat) :
    (∀ t ∈ (s n).ledger.shouldNack, t ∈ (s n).broker.tags) ∧
    (∀ t ∈ (s n).ledger.shouldNack, t ≤ (s n).ledger.previouslyNackedThrough →
      (∃ k g j, k < j ∧ j < n ∧ (s k).Passes cfg g (s (k + 1)) ∧ Unpassed cfg s (k + 1) n ∧
        t ∈ (s k).ledger.processing ∧ t ∈ (s j).ledger.processing ∧
        t ∈ (s (j + 1)).ledger.shouldNack) ∧
      ∀ tag multiple, Operation.nack tag multiple ∈ (s n).broker.operations →
        Broker.covers tag multiple t = false) ∧
    ((s n).failure = none → ∀ t ∈ (s n).ledger.shouldNack,
      (∃ g x, (s n).current = some g ∧ (s n).generations[g]? = some x ∧
        x.life.state.isTerminal = false ∧ ∀ k < n, ¬ (s k).Passes cfg g (s (k + 1))) ∧
      ∀ m, n ≤ m → Unpassed cfg s n m → t ∈ (s m).ledger.shouldNack ∧
        ∀ g, (s m).Passes cfg g (s (m + 1)) →
          (∃ r ∈ (s m).ledger.plan.rejects, Broker.covers r.1 r.2 t = true) ∧
          ((s (m + 1)).failure = none → t ∈ (s (m + 1)).broker.nacked)) ∧
    (∀ c x failure, (s n).failure = none → (s n).Over → (s n).claims[c]? = some x →
      x.stage = .running (.returned (.error failure)) →
      (s n).step? cfg (.claim c) = some (s (n + 1)) →
      x.tag ≤ (s n).ledger.previouslyNackedThrough ∧
      ((s (n + 1)).failure = none → x.tag ∈ (s (n + 1)).broker.nacked) ∧
      (∀ k g, k < n → (s k).Passes cfg g (s (k + 1)) →
        ∀ r ∈ (s k).ledger.plan.rejects, Broker.covers r.1 r.2 x.tag = false) ∧
      ∀ m g, n < m → (s m).Passes cfg g (s (m + 1)) →
        x.tag ∉ (s m).broker.tags ∧ ∀ r ∈ (s m).ledger.plan.rejects, r.1 ≠ x.tag) := by
  have hi := hr.settled n
  have hp := hr.paired n
  refine ⟨fun t ht => (hr.reckoned n).unsettled t (.inr ht), fun t ht hle => ⟨?_, ?_⟩,
    fun hf t ht => ⟨?_, fun m hm hun => ?_⟩, fun c x failure hf hover hx hst hstep => ?_⟩
  · obtain ⟨k, g, hk, hpass, hun, hproc⟩ := hr.last_pass (.inr ht) hle
    obtain ⟨_, _, _, hpassed⟩ := hr.passed hpass
    have hcleared : t ∉ (s (k + 1)).ledger.shouldNack := by
      rw [hpassed.ledger]
      exact TagSet.not_mem_empty t
    obtain ⟨j, hkj, hjn, hj, hj'⟩ := hr.recorded hk hcleared ht
    exact ⟨k, g, j, hkj, hjn, hpass, hun, hproc, hj, hj'⟩
  · exact fun tag multiple hmem => (hr.reckoned n).spared tag multiple hmem t (.inr ht)
  · obtain ⟨f, hl⟩ := hi.live hf
    have hover : ¬ (s n).Over := fun hover => (hl.rest hp hf hover).2 t ht
    rcases hl.current_last with ⟨hc, _⟩ | ⟨g, x, hc, _, hx⟩
    · exact (hover (by rw [Over, currentState, hc]; rfl)).elim
    · have hgoes : x.life.state.isTerminal = false := by
        rw [Over, currentState, hc, Option.map_some, Option.map_some,
          life_of_some (lives_of_some hx)] at hover
        exact Bool.eq_false_iff.2 hover
      exact ⟨g, x, hc, hx, hgoes, fun k hk => hr.pass_to_come hf hx hgoes hk⟩
  · have htm := hr.waits hm hun ht
    refine ⟨htm, fun g hpass => ⟨?_, fun hf' => ?_⟩⟩
    · have hsound := (hr.settled m).books.sound
      obtain ⟨hpos, hlast⟩ := hsound.shouldNack_delivered t htm
      exact due_covered hsound.previous_le hsound.processing_delivered hsound.shouldNack_pos
        hsound.shouldNack_apart ⟨hpos, hlast, .inl htm⟩
    · obtain ⟨_, _, _, hpassed⟩ := hr.passed hpass
      exact hpassed.rejects (hr.reckoned m) (hr.settled m) hf' htm
  · obtain ⟨f, hl⟩ := hi.live hf
    have hopen : x.stage.isOpen = true := by rw [hst]; rfl
    have hproc := hi.books.unfinished x (List.mem_of_getElem? hx) hopen
    have hreach : x.tag ≤ (s n).ledger.previouslyNackedThrough := by
      rw [(hl.rest hp hf hover).1]
      exact (hi.books.sound.processing_delivered _ hproc).2
    obtain ⟨hended, hdone⟩ := conclude_at_once (hr.attended n) hi hp hf hover hx hst hstep
    refine ⟨hreach, fun hf' => ?_, fun k g hk hpass => hr.uncovered hk hpass hproc,
      fun m g hm hpass => hr.not_covered_later hm hreach hended hdone hpass⟩
    exact hdone.elim id fun hspent => (hspent.failed hf').elim

/-- One callback fails after the teardown, when another caller waits already. Another one fails when
nobody waits any more. -/
def failures : List (Move Unit) :=
  [.act (.call "a message" fun _ => .holds true), .step (.wait 0), .step (.generation 0),
    .act (.publish default), .step (.generation 0), .step (.generation 0), .step (.claim 0),
    .step (.callback 0), .act (.call "another" fun _ => .holds true), .step (.wait 1),
    .step (.claim 0), .step (.generation 1), .step (.generation 1), .act (.publish default),
    .step (.generation 1), .step (.generation 1), .step (.claim 1), .step (.callback 1),
    .step (.claim 1)]

/-- The first failure waits for the second pass, and the second is rejected at once. -/
theorem failures_rejected : ∃ s : Nat → Harness Unit,
    Run .failing (fun a => a.isForeign = false) s ∧
    ((s 11).ledger.shouldNack.toList = [1] ∧ 1 ≤ (s 11).ledger.previouslyNackedThrough ∧
      (∃ k g, k < 11 ∧ (s k).Passes .failing g (s (k + 1)) ∧ 1 ∈ (s k).ledger.processing) ∧
      ∃ g, (s 11).current = some g ∧ ∀ k < 11, ¬ (s k).Passes .failing g (s (k + 1))) ∧
    (2 ≤ (s 18).ledger.previouslyNackedThrough ∧ 2 ∈ (s 19).broker.nacked) ∧
    (s 19).broker.nacked = [1, 2] := by
  have hr : Run .failing _ (after .failing (initial .failing) failures) := run_after rfl
  refine ⟨_, hr, ⟨rfl, by decide, ?_, ?_⟩, ?_, rfl⟩
  · obtain ⟨_, hlate, _⟩ := late_failures_rejected_once hr 11
    obtain ⟨⟨k, g, j, hkj, hj, hpass, _, hproc, _⟩, _⟩ := hlate 1 (by decide) (by decide)
    exact ⟨k, g, by omega, hpass, hproc⟩
  · obtain ⟨_, _, hwaits, _⟩ := late_failures_rejected_once hr 11
    obtain ⟨⟨g, _, hg, _, _, hcome⟩, _⟩ := hwaits rfl 1 (by decide)
    exact ⟨g, hg, hcome⟩
  · obtain ⟨_, _, _, hatonce⟩ := late_failures_rejected_once hr 18
    obtain ⟨hreach, hnacked, _⟩ := hatonce 1 _ _ rfl rfl rfl rfl rfl
    exact ⟨hreach, hnacked rfl⟩

end Harness
end Intercept
