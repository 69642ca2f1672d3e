import Intercept.Proofs.Harness.Turnover

/-! The deadline of a wait starts as its caller begins to await it, and counts as long as nobody took a
delivery for it. -/
namespace Intercept
variable {M : Type}

/-- The stages of a wait that is awaited since a time. -/
inductive WaitStage.Since (timeout start clock : Nat) : WaitStage M → Prop
  | awaited : clock = start → Since timeout start clock .awaited
  | awaiting : clock ≤ start + timeout → Since timeout start clock (.awaiting (start + timeout))
  | overdue : start + timeout ≤ clock → Since timeout start clock .overdue
  | ended (o : Outcome M) : Since timeout start clock (.ended o)
  | dropped : Since timeout start clock .dropped

theorem Claim.Fits.resolved {acked : List Nat} {calls : List (CallNote M)} {x : Claim M}
    {outcome : OneShot (Outcome M)} (hx : x.Fits acked calls outcome)
    (hover : x.stage.isOver = true) : ∃ o, outcome = .resolved o := by
  cases hx with
  | idle hs => rcases hs with hs | hs | hs <;> simp [hs, ClaimStage.isOver] at hover
  | running _ hs _ _ _ => simp [hs, ClaimStage.isOver] at hover
  | acked _ _ _ _ _ | failed _ _ _ _ | lost _ _ _ | brokenOff _ _ => exact ⟨_, rfl⟩

namespace Harness
variable {cfg : Setup M} {allowed : Act M → Prop} {h h' h₁ : Harness M} {s : Nat → Harness M}
  {e : HarnessError} {i k m n : Nat} {w w' : Wait M} {v : Waiter M} {x : Claim M} {o : Outcome M}

/-- The caller of a wait begins to await it. -/
def Awaits (h : Harness M) (i : Nat) (h' : Harness M) : Prop :=
  ∃ w w', h.waits[i]? = some w ∧ w.stage = .registered ∧
    h'.waits[i]? = some w' ∧ w'.stage = .awaited

theorem awaits_of_await (hs : h.await i = some h') : h.Awaits i h' := by
  rw [await, Option.bind_eq_bind, Option.bind_eq_some_iff] at hs
  obtain ⟨w, hw, hs⟩ := hs
  split at hs
  · next hstage =>
    cases hs
    exact ⟨w, _, hw, hstage, waits_enterWait_self hw, rfl⟩
  · cases hs

/-! How long a wait is awaited. -/

theorem ready_of_awaited (hw : h.waits[i]? = some w) (hs : w.stage = .awaited) :
    h.step? cfg (.wait i) = some (h.enterWait i (.awaiting (h.clock + cfg.timeout))) := by
  rw [step?, stepWait?, hw, Option.bind_eq_bind, Option.bind_some, hs]

theorem ready_of_resolved (cfg : Setup M) (hw : h.waits[i]? = some w)
    (hs : w.stage.isAwaiting = true) (hne : w.stage ≠ .awaited) (ho : w.outcome = .resolved o) :
    h.step? cfg (.wait i) = some (h.finish i o) := by
  rw [step?, stepWait?, hw, Option.bind_eq_bind, Option.bind_some]
  cases hstage : w.stage with
  | awaiting deadline => simp only [ho, OneShot.get?_resolved]
  | overdue =>
    simp only [ho, OneShot.get?_resolved]
    rfl
  | awaited => exact (hne hstage).elim
  | _ =>
    rw [hstage] at hs
    cases hs

/-- A caller that goes on before its deadline does not get past it. -/
theorem Advances.since {start : Nat} {stage : WaitStage M} (ha : h.Advances cfg i w stage)
    (hsince : w.stage.Since cfg.timeout start h.clock) :
    stage.Since cfg.timeout start h.clock := by
  cases ha with
  | dropped => exact .dropped
  | ended o _ _ => exact .ended o
  | refused e hs =>
    rcases hs with ⟨hs, _⟩ | ⟨g, hs, _⟩ <;>
      · rw [hs] at hsince
        cases hsince
  | starting g hs | registered g hs _ | awaited hs =>
    rw [hs] at hsince
    cases hsince
  | awaiting hs =>
    rw [hs] at hsince
    cases hsince with
    | awaited hstart =>
      rw [hstart]
      exact .awaiting (Nat.le_add_right _ _)
  | overdue deadline hs hdue _ _ =>
    rw [hs] at hsince
    cases hsince with
    | awaiting _ => exact .overdue hdue

/-- Whoever was called is listed at once, unless its caller is turned away or gives up. -/
theorem Visit.enlists (hv : h.Visit cfg i w h₁) (hs : w.stage = .calling)
    (hw₁ : h₁.waits[i]? = some w') (hw : h.waits[i]? = some w) :
    w'.stage.isOver = true ∨ i ∈ h₁.roll := by
  have hadvances := hv.advances hw hw₁
  have hnew : ∀ {waiters : List (Waiter M)}, h₁.waiters = waiters ++ [w.waiter i] → i ∈ h₁.roll := by
    intro waiters heq
    rw [roll, heq, List.map_append]
    exact List.mem_append_right _ (List.mem_singleton.2 rfl)
  cases hv with
  | turnedAway e _ _ =>
    rw [stage_enterWait hw hw₁]
    exact .inl rfl
  | joined g _ _ _ => exact .inr (hnew rfl)
  | created _ _ _ => exact .inr (hnew rfl)
  | left _ =>
    have hleft : (h.deregister i).waits[i]? = some w := by rw [waits_deregister, hw]
    rw [stage_enterWait hleft hw₁]
    exact .inl rfl
  | accepted g hs' _ | refused g e hs' _ | awaited hs' | armed hs' | expired _ hs' _ _ =>
    rw [hs] at hs'
    cases hs'
  | finished _ hs' _ =>
    rw [hs] at hs'
    rcases hs' with ⟨_, hs'⟩ | hs' <;> cases hs'

theorem Attended.pending_of_calling (ha : h.Attended cfg) (hw : h.waits[i]? = some w)
    (hs : w.stage = .calling) : w.outcome = .pending := by
  cases ha.placed i w hw with
  | calling _ _ ho _ | listed _ _ _ _ ho _ _ _ => exact ho
  | claimed _ _ _ hb => exact (hb.called hs).elim
  | apart _ _ hcalling _ _ => exact (hcalling hs).elim

/-- A wait is being made, or over, or its waiter is listed, has left with a claim, or was completed. -/
def Whereabouts (h : Harness M) (i : Nat) (w : Wait M) : Prop :=
  w.stage = .calling ∨ w.stage.isOver = true ∨ i ∈ h.roll ∨ (∃ x ∈ h.claims, x.wait = i) ∨
    w.outcome ≠ .pending

theorem Leaves.whereabouts (hl : h.Leaves w) : h.Whereabouts i w := by
  rcases hl with hs | ⟨e, _, ho | hs⟩ | ⟨_, ho⟩
  · exact .inr (.inl (by rw [hs]; rfl))
  · exact .inr (.inr (.inr (.inr (by simp [ho]))))
  · exact .inr (.inl (by rw [hs]; rfl))
  · exact .inr (.inr (.inr (.inr ho)))

/-- Whoever was called is listed, or over, as its caller goes on. -/
theorem Course.whereabouts_of_calling (hc : h.Course cfg h' i w w') (ha : h.Attended cfg)
    (hw : h.waits[i]? = some w) (hw' : h'.waits[i]? = some w') (hs : w.stage = .calling) :
    h'.Whereabouts i w' := by
  rcases hc.stage with hsame | ⟨h₁, hv, hend, w₁, hw₁, hstage⟩
  · exact .inl (hsame.trans hs)
  · rcases hv.enlists hs hw₁ hw with hover | hi
    · exact .inr (.inl (hstage ▸ hover))
    · obtain ⟨w₂, hw₂, _, ho₂, _⟩ := hv.wait hw hw
      obtain rfl := Option.some.inj (hw₁.symm.trans hw₂)
      have hpending := ho₂.trans (ha.pending_of_calling hw hs)
      rcases leaves_disposed hw₁ hpending hend (.inl hi) with hi | ⟨u, hu, hl⟩
      · exact .inr (.inr (.inl hi))
      · obtain rfl := Option.some.inj (hw'.symm.trans hu)
        exact hl.whereabouts

theorem Run.claim_succ (hr : Run cfg allowed s) (hx : ∃ x ∈ (s n).claims, x.wait = i) :
    ∃ x ∈ (s (n + 1)).claims, x.wait = i := by
  obtain ⟨x, hx, hi⟩ := hx
  obtain ⟨y, hy, hdeal⟩ := hr.claim_of_le (Nat.le_succ n) hx
  exact ⟨y, hy, (Claim.deal_eq_iff.1 hdeal).2.1.trans hi⟩

theorem Run.whereabouts (hr : Run cfg allowed s) (hw : (s n).waits[i]? = some w) :
    (s n).Whereabouts i w := by
  refine hr.wait_induction (i := i) (P := fun n w => (s n).Whereabouts i w)
    (fun n w hcalling _ => .inl hcalling) (fun n u w hu hw hc ih => ?_) hw
  rcases ih with hcalling | hover | hi | hx | ho
  · exact hc.whereabouts_of_calling (hr.attended n) hu hw hcalling
  · exact .inr (.inl (by rwa [hc.abides.stage hover]))
  · rcases (hr.happening n).stays (hr.attended n) (hr.paired n) hi with hi | hx | ⟨w', hw', hl⟩
    · exact .inr (.inr (.inl hi))
    · exact .inr (.inr (.inr (.inl hx)))
    · obtain rfl := Option.some.inj (hw.symm.trans hw')
      exact hl.whereabouts
  · exact .inr (.inr (.inr (.inl (hr.claim_succ hx))))
  · obtain ⟨o, hout⟩ : ∃ o, u.outcome = .resolved o := by
      cases hout : u.outcome with
      | pending => exact (ho hout).elim
      | resolved o => exact ⟨o, rfl⟩
    exact .inr (.inr (.inr (.inr (by simp [hc.abides.outcome o hout]))))

/-- Whoever is still awaited has its outcome, or is listed, or has claimed a delivery. -/
theorem Whereabouts.awaiting (hwhere : h.Whereabouts i w) (hs : w.stage.isAwaiting = true)
    (hpending : w.outcome = .pending) : i ∈ h.roll ∨ ∃ x ∈ h.claims, x.wait = i := by
  rcases hwhere with hcalling | hover | hi | hx | ho
  · rw [hcalling] at hs
    cases hs
  · cases hstage : w.stage <;> simp_all [WaitStage.isAwaiting, WaitStage.isOver]
  · exact .inl hi
  · exact .inr hx
  · exact (ho hpending).elim

theorem Run.waits_of_taken (hr : Run cfg allowed s) (hd : (s (n + 1)).deals ≠ (s n).deals) :
    (s (n + 1)).waits = (s n).waits := by
  rcases (hr.happening n).older_or_handed with
    ho | ⟨g, d, rest, y, deadline, h₁, _, _, hdispatched, heq⟩
  · exact (hd (hr.deeds_of_older ho).deals).elim
  · have hsame : h₁.waits = (s n).waits := by cases hdispatched <;> rfl
    rw [heq]
    split <;> exact hsame

/-- As a claim begins, its wait has no outcome yet. -/
theorem Run.pending_of_taken (hr : Run cfg allowed s) {d : Delivery}
    (htakes : (s n).Takes cfg d x) (htaken : (s (n + 1)).deals[(s n).claims.length]? = some x.deal)
    (hw : (s (n + 1)).waits[x.wait]? = some w) : w.outcome = .pending := by
  have hbegun : (s (n + 1)).deals ≠ (s n).deals := by
    intro heq
    rw [heq] at htaken
    have hlt := (List.getElem?_eq_some_iff.1 htaken).1
    rw [deals, List.length_map] at hlt
    exact Nat.lt_irrefl _ hlt
  obtain ⟨before, v, behind, hsplit, hid, _⟩ := htakes.listed
  have hi : x.wait ∈ (s n).roll := mem_roll_of_mem (by rw [hsplit]; simp) hid
  obtain ⟨u, _, hu, hpending, _⟩ := (hr.attended n).wait_of_roll hi
  rw [hr.waits_of_taken hbegun, hu] at hw
  obtain rfl := Option.some.inj hw
  exact hpending

/-- A claimed wait is completed as its claim is answered for, when its callback has ended. -/
theorem Completion.answers (hc : h.Completion cfg h' x.wait o) (ha : h.Attended cfg)
    (hx : x ∈ h.claims) (ho : ∀ e, o = .error e → e ≠ .cancelled) : h.Answers cfg x o ∧
      ∃ result, x.ending = some result ∧ x.stage = .running (.returned result) := by
  obtain ⟨w, hw, hunlisted, _, hbinds⟩ := ha.wait_of_claim hx
  cases hc with
  | answered y o hy hyi hanswers _ =>
    obtain rfl := ha.claim_unique hx hy hyi
    refine ⟨hanswers, ?_⟩
    have hreturned : ∃ result, y.stage = .running (.returned result) := by
      cases hanswers with
      | brokenOff _ _ => exact (ho _ rfl rfl).elim
      | acked hs _ | lost _ hs _ | failed _ hs => exact ⟨_, hs⟩
    obtain ⟨result, hs⟩ := hreturned
    obtain ⟨_, hresult, _⟩ := hbinds.fits.of_running hs
    exact ⟨result, hresult, hs⟩
  | failed e _ _ _ hi => exact (mem_roll.1 hi hunlisted).elim
  | expired _ _ v _ _ hv hvi => exact (mem_roll.1 (mem_roll_of_mem hv hvi) hunlisted).elim
  | disposed _ _ => exact (ho _ rfl rfl).elim

/-- A claim that breaks off in a move has no callback, and was about to let it run. -/
theorem Run.answers_brokenOff (hr : Run cfg allowed s) {c : Nat} {y : Claim M}
    (hy : (s n).claims[c]? = some y) (hx : (s (n + 1)).claims[c]? = some x)
    (hold : y.stage ≠ .brokenOff) (hs : x.stage = .brokenOff) (hnone : y.callback = none) :
    (s n).Answers cfg y (.error .cancelled) := by
  obtain ⟨stage, hstage, hgoes⟩ := (hr.conserves n).goes_of_errand (hr.errand n) hy
  cases hstage.symm.trans hx
  obtain rfl : stage = .brokenOff := hs
  rcases hgoes with heq | hgoes
  · exact (hold heq.symm).elim
  · generalize hst : y.stage = before at hgoes
    cases hgoes with
    | brokenOff _ => exact .brokenOff (.inr hst) hnone
    | atOnce _ => exact .brokenOff (.inl hst) hnone

/-- The outcome of a claimed wait is what its claim was answered with, as its callback ended or since
there was none. -/
theorem Run.answered (hr : Run cfg allowed s) (hx : x ∈ (s n).claims)
    (hw : (s n).waits[x.wait]? = some w) (ho : w.outcome = .resolved o) :
    ∃ m < n, ∃ y ∈ (s m).claims, y.deal = x.deal ∧ (s m).Answers cfg y o ∧
      ((∃ result, x.ending = some result ∧ y.stage = .running (.returned result)) ∨
        x.callback = none ∧ o = .error .cancelled) := by
  induction n generalizing x w with
  | zero =>
    rw [hr.start] at hx
    cases hx
  | succ n ih =>
    obtain ⟨c, hc⟩ := List.getElem?_of_mem hx
    obtain ⟨m, hm, ⟨d, htakes⟩, rfl, htaken⟩ := hr.taken hc
    rcases Nat.lt_or_eq_of_le (Nat.le_of_lt_succ hm) with hlt | rfl
    · -- The claim was there before, and its waiter off the list.
      obtain ⟨y, hy, hdeal⟩ := claim_of_deal (hr.deal_of_le hlt htaken)
      have hmem := List.mem_of_getElem? hy
      obtain ⟨_, hwait, _, _, hcallback⟩ := Claim.deal_eq_iff.1 hdeal
      have hending := Claim.ending_of_deal hdeal
      obtain ⟨u, hu, _, _, hbound⟩ := (hr.attended n).wait_of_claim hmem
      obtain ⟨w', hw', hcourse⟩ := hr.course n hu
      rw [hwait] at hw'
      obtain rfl := Option.some.inj (hw.symm.trans hw')
      rcases hcourse.outcome with heq | ⟨hpending, o', ho', hcompletion⟩
      · obtain ⟨m, hm, z, hz, hzdeal, hanswers, hcause⟩ := ih hmem hu (heq.symm.trans ho)
        rw [hending, hcallback] at hcause
        exact ⟨m, by omega, z, hz, hzdeal.trans hdeal, hanswers, hcause⟩
      · rw [ho] at ho'
        obtain rfl := OneShot.resolved.inj ho'
        refine ⟨n, Nat.lt_succ_self n, y, hmem, hdeal, ?_⟩
        obtain ⟨w', hw', _, _, hb⟩ := (hr.attended (n + 1)).wait_of_claim hx
        obtain rfl := Option.some.inj (hw.symm.trans hw')
        have hfits := hb.fits
        rw [ho] at hfits
        rcases hfits.outcome with ⟨_, _, hnever⟩ | ⟨hs, hnone, rfl⟩
        · have hcalm : ∀ e, o = .error e → e ≠ .cancelled := by
            rintro e rfl rfl
            cases hnever _ rfl
          obtain ⟨hanswers, hreturned⟩ := hcompletion.answers (hr.attended n) hmem hcalm
          rw [hending] at hreturned
          exact ⟨hanswers, .inl hreturned⟩
        · have hold : y.stage ≠ .brokenOff := by
            intro hbroken
            have hresolved := (hbound.fits.of_brokenOff hbroken).2
            rw [hpending] at hresolved
            cases hresolved
          exact ⟨hr.answers_brokenOff hy hc hold hs (hcallback.trans hnone), .inr ⟨hnone, rfl⟩⟩
    · rw [hr.pending_of_taken htakes htaken hw] at ho
      cases ho

theorem Punctual.tells (hp : Punctual cfg s) (hw : (s n).waits[i]? = some w)
    (hs : w.stage.isAwaiting = true) (ho : w.outcome = .resolved o) :
    (s (n + 1)).clock = (s n).clock ∧ (w.stage ≠ .awaited →
      (s n).step? cfg (.wait i) = some ((s n).finish i o)) := by
  by_cases hawaited : w.stage = .awaited
  · exact ⟨hp.still (ready_of_awaited hw hawaited), fun hne => (hne hawaited).elim⟩
  · have hready := ready_of_resolved cfg hw hs hawaited ho
    exact ⟨hp.still hready, fun _ => hready⟩

/-- Two callers begin to await their waits at once. The predicate of the first raises on the message
that the second claims, and whose callback takes longer than the deadline. -/
def patience : List (Move Bool) :=
  [.act (.call "a message" fun _ => .raised ⟨"refused", []⟩),
    .act (.call "another" fun _ => .holds true), .step (.wait 0), .step (.wait 1),
    .step (.generation 0), .step (.wait 0), .step (.wait 1), .act (.await 0), .act (.await 1),
    .step (.wait 0), .step (.wait 1), .tick, .act (.publish []), .step (.generation 0),
    .step (.claim 0), .step (.callback 0), .tick, .step (.wait 0), .step (.wait 1),
    .step (.generation 0), .tick, .tick, .step (.callback 0), .step (.claim 0), .step (.wait 1),
    .tick]

end Harness
end Intercept
