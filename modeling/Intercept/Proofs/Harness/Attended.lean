import Intercept.Proofs.Generation.Signals
import Intercept.Proofs.Harness.Live
import Intercept.Proofs.Harness.Paired

/-! Where a wait stands: it is being made, its waiter is listed, it has claimed a delivery, or it is
apart from all deliveries; and what its caller was told on the way. -/
namespace Intercept
variable {M : Type}

/-! Lists of which an element is taken out or changed. -/
section
variable {α : Type} {p q : α → Bool} {f : α → α} {xs : List α} {a b : α} {k : Nat}

theorem filter_eraseP_self : (xs.eraseP p).filter p = (xs.filter p).tail := by
  induction xs with
  | nil => rfl
  | cons x xs ih =>
    by_cases hx : p x = true
    · rw [List.eraseP_cons_of_pos hx, List.filter_cons_of_pos hx, List.tail_cons]
    · rw [List.eraseP_cons_of_neg hx, List.filter_cons_of_neg hx, List.filter_cons_of_neg hx, ih]

theorem filter_eraseP_of_disjoint (hd : ∀ a, p a = true → q a = false) :
    (xs.eraseP p).filter q = xs.filter q := by
  induction xs with
  | nil => rfl
  | cons x xs ih =>
    by_cases hx : p x = true
    · rw [List.eraseP_cons_of_pos hx, List.filter_cons_of_neg (Bool.eq_false_iff.1 (hd x hx))]
    · rw [List.eraseP_cons_of_neg hx, List.filter_cons, List.filter_cons, ih]

theorem filter_modify_of_not (hk : xs[k]? = some a) (ha : q a = false) (hf : q (f a) = false) :
    (xs.modify k f).filter q = xs.filter q := by
  induction xs generalizing k with
  | nil => cases hk
  | cons x xs ih =>
    cases k with
    | zero =>
      cases hk
      rw [List.modify_zero_cons, List.filter_cons_of_neg (Bool.eq_false_iff.1 ha),
        List.filter_cons_of_neg (Bool.eq_false_iff.1 hf)]
    | succ k => rw [List.modify_succ_cons, List.filter_cons, List.filter_cons, ih hk]

theorem filter_modify_of_single (hk : xs[k]? = some a) (hs : xs.filter q = [b])
    (ha : q a = true) (hf : q (f a) = true) : b = a ∧ (xs.modify k f).filter q = [f a] := by
  induction xs generalizing k with
  | nil => cases hk
  | cons x xs ih =>
    cases k with
    | zero =>
      cases hk
      rw [List.filter_cons_of_pos ha] at hs
      obtain ⟨rfl, hnil⟩ := List.cons.inj hs
      rw [List.modify_zero_cons, List.filter_cons_of_pos hf, hnil]
      exact ⟨rfl, rfl⟩
    | succ k =>
      have hmem : a ∈ xs.filter q := List.mem_filter.2 ⟨List.mem_of_getElem? hk, ha⟩
      by_cases hx : q x = true
      · rw [List.filter_cons_of_pos hx] at hs
        rw [(List.cons.inj hs).2] at hmem
        cases hmem
      · rw [List.filter_cons_of_neg hx] at hs
        rw [List.modify_succ_cons, List.filter_cons_of_neg hx]
        exact ih hk hs

theorem countP_modify (hk : xs[k]? = some a) :
    (xs.modify k f).countP q + (if q a then 1 else 0) =
      xs.countP q + if q (f a) then 1 else 0 := by
  induction xs generalizing k with
  | nil => cases hk
  | cons x xs ih =>
    cases k with
    | zero =>
      cases hk
      rw [List.modify_zero_cons, List.countP_cons, List.countP_cons]
      omega
    | succ k =>
      have := ih hk
      rw [List.modify_succ_cons, List.countP_cons, List.countP_cons]
      omega

end

/-! Callbacks. -/

/-- How a callback with these actions ends. -/
def Action.result : List Action → Except Failure Unit
  | [] => .ok ()
  | .fail failure :: _ => .error failure
  | .panic reason :: _ => .error (panicFailure reason)
  | .sleep _ :: rest | .pass _ :: rest => result rest

namespace CallbackStage

/-- How a running callback will end. -/
def result : CallbackStage → Except Failure Unit
  | spawned actions | sleeping _ actions | gated _ actions => Action.result actions
  | returned result => result

def hasBegun : CallbackStage → Bool
  | spawned _ => false
  | _ => true

end CallbackStage

/-- Whether the callback of a claim has begun. -/
def ClaimStage.hasBegun : ClaimStage → Bool
  | running callback => callback.hasBegun
  | settled => true
  | _ => false

/-- A callback that goes on comes to the same end. -/
theorem Harness.perform_result {clock : Nat} {openGates : List String} {actions : List Action} :
    (perform clock openGates actions).result = Action.result actions ∧
      (perform clock openGates actions).hasBegun = true := by
  induction actions with
  | nil => exact ⟨rfl, rfl⟩
  | cons a rest ih =>
    cases a with
    | sleep ms =>
      rw [perform]
      split
      · exact ih
      · exact ⟨rfl, rfl⟩
    | pass gate =>
      rw [perform]
      split
      · exact ih
      · exact ⟨rfl, rfl⟩
    | fail failure => exact ⟨rfl, rfl⟩
    | panic reason => exact ⟨rfl, rfl⟩

/-- How the callback of a claim ends, if it has one. -/
def Claim.ending (x : Claim M) : Option (Except Failure Unit) := x.callback.map Action.result

/-- How the outcome of a waiter fits the claim that it left with. -/
inductive Claim.Fits (acked : List Nat) (calls : List (CallNote M)) (x : Claim M) :
    OneShot (Outcome M) → Prop
  | idle : x.stage = .claimed ∨ x.stage = .queued ∨ x.stage = .granted → Fits acked calls x .pending
  | running (callback : CallbackStage) : x.stage = .running callback →
    x.ending = some callback.result → (callback.hasBegun = true → .began x.tag x.message ∈ calls) →
    (callback = .returned (.ok ()) → .ended x.tag x.message ∈ calls) → Fits acked calls x .pending
  | acked : x.stage = .settled → x.ending = some (.ok ()) → .began x.tag x.message ∈ calls →
    .ended x.tag x.message ∈ calls → x.tag ∈ acked → Fits acked calls x (.resolved (.ok x.message))
  | failed (failure : Failure) : x.stage = .settled → x.ending = some (.error failure) →
    .began x.tag x.message ∈ calls →
    Fits acked calls x (.resolved (.error (.processing x.tag failure)))
  /-- The acknowledgement failed. -/
  | lost (e : BrokerError) : x.stage = .settled → x.ending = some (.ok ()) →
    Fits acked calls x (.resolved (.error (.transport e)))
  /-- There was no callback. -/
  | brokenOff : x.stage = .brokenOff → x.ending = none →
    Fits acked calls x (.resolved (.error .cancelled))

theorem Claim.Fits.mono {acked acked' : List Nat} {calls calls' : List (CallNote M)}
    {x : Claim M} {outcome : OneShot (Outcome M)} (h : x.Fits acked calls outcome)
    (ha : ∀ tag ∈ acked, tag ∈ acked') (hc : ∀ note ∈ calls, note ∈ calls') :
    x.Fits acked' calls' outcome := by
  cases h with
  | idle hs => exact .idle hs
  | running callback hs hr hb he =>
    exact .running callback hs hr (fun h => hc _ (hb h)) fun h => hc _ (he h)
  | acked hs hr hb he ht => exact .acked hs hr (hc _ hb) (hc _ he) (ha _ ht)
  | failed failure hs hr hb => exact .failed failure hs hr (hc _ hb)
  | lost e hs hr => exact .lost e hs hr
  | brokenOff hs hn => exact .brokenOff hs hn

/-- The outcome is pending as long as the callback runs. -/
theorem Claim.Fits.of_running {acked : List Nat} {calls : List (CallNote M)} {x : Claim M}
    {outcome : OneShot (Outcome M)} {callback : CallbackStage} (h : x.Fits acked calls outcome)
    (hs : x.stage = .running callback) : outcome = .pending ∧ x.ending = some callback.result ∧
      (callback.hasBegun = true → .began x.tag x.message ∈ calls) ∧
      (callback = .returned (.ok ()) → .ended x.tag x.message ∈ calls) := by
  cases h with
  | idle hs' => simp [hs] at hs'
  | running callback' hs' hr hb he =>
    rw [hs] at hs'
    cases hs'
    exact ⟨rfl, hr, hb, he⟩
  | acked hs' _ _ _ _ | failed _ hs' _ _ | lost _ hs' _ | brokenOff hs' _ => simp [hs] at hs'

/-- A claim that broke off had no callback. -/
theorem Claim.Fits.of_brokenOff {acked : List Nat} {calls : List (CallNote M)} {x : Claim M}
    {outcome : OneShot (Outcome M)} (h : x.Fits acked calls outcome)
    (hs : x.stage = .brokenOff) :
    x.callback = none ∧ outcome = .resolved (.error .cancelled) := by
  cases h with
  | idle hs' => simp [hs] at hs'
  | brokenOff _ hnone => exact ⟨Option.map_eq_none_iff.1 hnone, rfl⟩
  | running _ hs' _ _ _ | acked hs' _ _ _ _ | failed _ hs' _ _ | lost _ hs' _ => simp [hs] at hs'

theorem Claim.Fits.of_idle {acked : List Nat} {calls : List (CallNote M)} {x : Claim M}
    {outcome : OneShot (Outcome M)} (h : x.Fits acked calls outcome)
    (hs : x.stage = .claimed ∨ x.stage = .queued ∨ x.stage = .granted) : outcome = .pending := by
  cases h with
  | idle _ | running _ _ _ _ _ => rfl
  | acked hs' _ _ _ _ | failed _ hs' _ _ | lost _ hs' _ | brokenOff hs' _ => simp [hs'] at hs

/-- Whether it is noted that a callback has begun with a tag. -/
def CallNote.begins (tag : Nat) : CallNote M → Bool
  | began t _ => t == tag
  | ended .. => false

/-- Whether a consumer with this stage subscribes after the given generation. -/
def Stage.Follows (stage : Stage) (previous : Nat) : Prop :=
  stage = .created (some previous) ∨ ∃ deadline, stage = .waiting previous deadline

/-- Whether an error is about a callback, which takes a claim. -/
def HarnessError.isProcessing : HarnessError → Bool
  | processing .. => true
  | _ => false

theorem HarnessError.not_processing_of_terminal {e : HarnessError} (h : e.isTerminal = true) :
    e.isProcessing = false := by
  cases e <;> first | rfl | cases h

namespace WaitStage

/-- Whether the caller has its wait and may still be without an outcome. -/
def isAccepted : WaitStage M → Bool
  | registered | awaited | awaiting _ => true
  | _ => false

theorem not_over_of_listed {stage : WaitStage M} {g : Nat}
    (h : stage = starting g ∨ stage.isAccepted = true) :
    stage ≠ calling ∧ (∀ o, stage ≠ ended o) ∧ ∀ e, stage ≠ refused e := by
  cases stage <;> simp_all [isAccepted]

/-- What the caller of a wait at this stage was told so far. -/
def Tells : WaitStage M → List (Notice M) → Prop
  | calling, ns | starting _, ns => ns = []
  | refused e, ns => ns = [.result (.error e)]
  | registered, ns | awaited, ns | awaiting _, ns | overdue, ns => ns = [.registered]
  | ended o, ns => ns = [.registered, .result o]
  | dropped, ns => ns = [] ∨ ns = [.registered]

end WaitStage

namespace Harness
variable {cfg : Setup M} {h h' : Harness M} {c g i : Nat} {w : Wait M} {x : Claim M}

/-- The listed waiters of a wait. -/
def waitersOf (h : Harness M) (i : Nat) : List (Waiter M) := h.waiters.filter (·.id == i)

/-- The claims of a wait. -/
def claimsOf (h : Harness M) (i : Nat) : List (Claim M) := h.claims.filter (·.wait == i)

/-- What the caller of a wait was told. -/
def told (h : Harness M) (i : Nat) : List (Notice M) :=
  (h.notices.filter (·.1 == i)).map (·.2)

/-- How a wait stands that has left with a claim. -/
structure Binds (h : Harness M) (x : Claim M) (w : Wait M) : Prop where
  predicate : (w.predicate x.message).claims = true
  fits : x.Fits h.broker.acked h.calls w.outcome
  starting : ∀ g, w.stage = .starting g →
    g = x.generation ∧ (h.life g).started = .resolved (.ok ())
  called : w.stage ≠ .calling
  admitted : ∀ e, w.stage ≠ .refused e
  ended : ∀ o, w.stage = .ended o → w.outcome = .resolved o

/-- The place of a wait. It has at most one listed waiter or one claim, never both. -/
inductive Place (h : Harness M) (i : Nat) (w : Wait M) : Prop
  | calling : h.waitersOf i = [] → h.claimsOf i = [] → w.outcome = .pending →
    w.stage = .calling → Place h i w
  /-- It waits for the current generation to start, or that has started. -/
  | listed (v : Waiter M) (g : Nat) : h.waitersOf i = [v] → h.claimsOf i = [] →
    w.outcome = .pending → v.predicate = w.predicate → h.current = some g →
    w.stage = .starting g ∨
      w.stage.isAccepted = true ∧ (h.life g).started = .resolved (.ok ()) → Place h i w
  | claimed (x : Claim M) : h.waitersOf i = [] → h.claimsOf i = [x] → h.Binds x w →
    Place h i w
  | apart : h.waitersOf i = [] → h.claimsOf i = [] → w.stage ≠ .calling →
    (∀ o, w.outcome = .resolved o ∨ w.stage = .ended o →
      ∃ e, o = .error e ∧ e.isProcessing = false) →
    (∀ e, w.stage = .refused e → e.isProcessing = false) → Place h i w

/-- The generations keep their signals, and each follows the one before it. -/
structure Orderly (h : Harness M) : Prop where
  signalled : ∀ l ∈ h.lives, l.Signalled
  opened : ∀ (g : Nat) (x : Generation) (d : Option Nat), h.generations[g]? = some x →
    x.stage = .routing d → x.life.state ≠ .initial
  unopened : ∀ (g : Nat) (x : Generation), h.generations[g]? = some x →
    x.stage.isOpening = true → x.life.state ≠ .started
  first : ∀ (g : Nat) (x : Generation), h.generations[g]? = some x → x.stage = .created none → g = 0
  follows : ∀ (g : Nat) (x : Generation) (p : Nat), h.generations[g]? = some x → x.stage.Follows p → p + 1 = g
  terminal : ∀ e, h.failure = some e → e.isTerminal = true
  latest : h.failure = none → h.generations.length = (h.current.map (· + 1)).getD 0

/-- Each claim has the callback that comes with its number. -/
def Handled (cfg : Setup M) (claims : List (Claim M)) : Prop :=
  ∀ (c : Nat) (x : Claim M), claims[c]? = some x → x.callback = cfg.callback x.message c

theorem Handled.restage {claims : List (Claim M)} {stage : ClaimStage} (hh : Handled cfg claims) :
    Handled cfg (restage claims c stage) := by
  intro k y hy
  rcases getElem?_modify_some hy with ⟨_, hy⟩ | ⟨_, x, hx, rfl⟩
  · exact hh k y hy
  · exact hh k x hx

theorem Handled.append {claims : List (Claim M)} (hh : Handled cfg claims)
    (hx : x.callback = cfg.callback x.message claims.length) : Handled cfg (claims ++ [x]) := by
  intro k y hy
  rcases Nat.lt_trichotomy k claims.length with hlt | rfl | hgt
  · rw [List.getElem?_append_left hlt] at hy
    exact hh k y hy
  · rw [List.getElem?_concat_length] at hy
    cases hy
    exact hx
  · rw [List.getElem?_eq_none (by rw [List.length_append, List.length_singleton]; omega)] at hy
    cases hy

/-- Every wait is attended to, whatever anybody does. -/
structure Attended (cfg : Setup M) (h : Harness M) : Prop extends Orderly h where
  placed : ∀ (i : Nat) (w : Wait M), h.waits[i]? = some w → h.Place i w
  tells : ∀ (i : Nat) (w : Wait M), h.waits[i]? = some w → w.stage.Tells (h.told i)
  nobody : ∀ i : Nat, h.waits[i]? = none → h.waitersOf i = [] ∧ h.claimsOf i = [] ∧ h.told i = []
  queue : Queued h.claims h.permitQueue
  handled : Handled cfg h.claims
  /-- Each callback notes once that it has begun. -/
  begun : ∀ tag, h.calls.countP (·.begins tag) =
    h.claims.countP fun x => x.tag == tag && x.stage.hasBegun

theorem orderly_initial : (initial cfg).Orderly := by
  have hgenerations : (initial cfg).generations = [] := rfl
  have hlives : (initial cfg).lives = [] := rfl
  have hfailure : (initial cfg).failure = none := rfl
  refine ⟨?_, ?_, ?_, ?_, ?_, ?_, fun _ => rfl⟩
  · simp [hlives]
  all_goals simp [hgenerations, hfailure]

theorem attended_initial : (initial cfg).Attended cfg := by
  have hwaits : (initial cfg).waits = [] := rfl
  refine ⟨orderly_initial, ?_, ?_, fun _ _ => ⟨rfl, rfl, rfl⟩, ?_, fun c x hx => ?_, fun _ => rfl⟩
  · simp [hwaits]
  · simp [hwaits]
  · exact ⟨List.nodup_nil, fun c hc => (List.not_mem_nil hc).elim⟩
  · cases hx

theorem Orderly.congr (ho : h.Orderly) (hg : h'.generations = h.generations)
    (hc : h'.current = h.current) (hf : h'.failure = h.failure) : h'.Orderly where
  signalled := by
    rw [lives, hg]
    exact ho.signalled
  opened := hg ▸ ho.opened
  unopened := hg ▸ ho.unopened
  first := hg ▸ ho.first
  follows := hg ▸ ho.follows
  terminal := hf ▸ ho.terminal
  latest := by
    rw [hf, hg, hc]
    exact ho.latest

/-! What a place depends on. -/

/-- What the places of all waits depend on is kept. -/
structure Around (h h' : Harness M) : Prop where
  current : h.waiters ≠ [] → h'.current = h.current
  started : ∀ g, (h.life g).started = .resolved (.ok ()) →
    (h'.life g).started = .resolved (.ok ())
  acked : ∀ tag ∈ h.broker.acked, tag ∈ h'.broker.acked
  calls : ∀ note ∈ h.calls, note ∈ h'.calls

/-- One wait is left alone. -/
structure Alone (h h' : Harness M) (i : Nat) : Prop where
  waits : h'.waits[i]? = h.waits[i]?
  waiters : h'.waitersOf i = h.waitersOf i
  claims : h'.claimsOf i = h.claimsOf i
  told : h'.told i = h.told i

theorem ne_nil_of_waitersOf {v : Waiter M} (hv : h.waitersOf i = [v]) : h.waiters ≠ [] := by
  intro hnil
  rw [waitersOf, hnil] at hv
  cases hv

theorem Binds.mono (hb : h.Binds x w) (hn : Around h h') : h'.Binds x w :=
  { hb with
    fits := hb.fits.mono hn.acked hn.calls
    starting := fun g hs => ⟨(hb.starting g hs).1, hn.started g (hb.starting g hs).2⟩ }

theorem Place.mono (hp : h.Place i w) (hn : Around h h')
    (hw : h'.waitersOf i = h.waitersOf i) (hc : h'.claimsOf i = h.claimsOf i) :
    h'.Place i w := by
  cases hp with
  | calling hv hx ho hs => exact .calling (hw.trans hv) (hc.trans hx) ho hs
  | listed v g hv hx ho hpred hg hs =>
    refine .listed v g (hw.trans hv) (hc.trans hx) ho hpred ?_ ?_
    · rw [hn.current (ne_nil_of_waitersOf hv), hg]
    · exact hs.imp_right fun hs => ⟨hs.1, hn.started g hs.2⟩
  | claimed x hv hx hb => exact .claimed x (hw.trans hv) (hc.trans hx) (hb.mono hn)
  | apart hv hx hcalling ho hrefused =>
    exact .apart (hw.trans hv) (hc.trans hx) hcalling ho hrefused

/-- A change that leaves each wait alone, or leads it to another place. -/
theorem Attended.change (ha : h.Attended cfg) (ho : h'.Orderly) (hn : Around h h')
    (hq : Queued h'.claims h'.permitQueue) (hh : Handled cfg h'.claims)
    (hb : ∀ tag, h'.calls.countP (·.begins tag) =
      h'.claims.countP fun x => x.tag == tag && x.stage.hasBegun)
    (hall : ∀ i, h.Alone h' i ∨ ∃ w, h'.waits[i]? = some w ∧ h'.Place i w ∧
      w.stage.Tells (h'.told i)) : h'.Attended cfg where
  toOrderly := ho
  placed := by
    intro i w hw
    rcases hall i with hsame | ⟨w', hw', hp, _⟩
    · exact (ha.placed i w (hsame.waits ▸ hw)).mono hn hsame.waiters hsame.claims
    · rw [hw] at hw'
      cases hw'
      exact hp
  tells := by
    intro i w hw
    rcases hall i with hsame | ⟨w', hw', _, ht⟩
    · rw [hsame.told]
      exact ha.tells i w (hsame.waits ▸ hw)
    · rw [hw] at hw'
      cases hw'
      exact ht
  nobody := by
    intro i hw
    rcases hall i with hsame | ⟨w', hw', _⟩
    · rw [hsame.waiters, hsame.claims, hsame.told]
      exact ha.nobody i (hsame.waits ▸ hw)
    · rw [hw] at hw'
      cases hw'
  queue := hq
  handled := hh
  begun := hb

end Harness
end Intercept
