import Intercept.Proofs.Broker.Log
import Intercept.Proofs.Generation.Frank
import Intercept.Proofs.Harness.LateFailures

/-! What a harness does behind the back of those who wait. They notice it only if the harness fails on
the way. -/
namespace Intercept

/-- Whether an error makes the harness fail, rather than dispose of it. -/
def HarnessError.isFault : HarnessError → Bool
  | transport _ | generation _ => true
  | _ => false

theorem HarnessError.isTerminal_of_fault {e : HarnessError} (h : e.isFault = true) :
    e.isTerminal = true := by
  cases e <;> first | rfl | cases h

theorem HarnessError.ne_disposed_of_fault {e : HarnessError} (h : e.isFault = true) :
    e ≠ .disposed := by
  rintro rfl
  cases h

theorem Lifecycle.fault_of_setComplete {l l' : Lifecycle} {consumer : String} {e : HarnessError}
    (h : l.setComplete consumer = (l', .error e)) : e.isFault = true := by
  obtain ⟨state, stopRequested, started, fullyStopped⟩ := l
  cases state <;> cases h <;> rfl

namespace Harness
variable {M : Type} {cfg : Setup M} {h h' h'' h₁ : Harness M} {c g k : Nat}
  {e : HarnessError} {f : Lifecycle → Lifecycle}

/-- The part of a harness that those who wait can see. -/
def view (h : Harness M) : Nat × List (Wait M) × List (Waiter M) × Option Nat ×
    Option HarnessError × Bool :=
  (h.clock, h.waits, h.waiters, h.current, h.failure, h.dropped)

/-- The generations get older, the broker's log gets longer, and nothing is handed out. -/
structure Older (h h' : Harness M) : Prop where
  length : h.generations.length ≤ h'.generations.length
  lives : ∀ k, (h.life k).Ages (h'.life k)
  inbound : ∀ k, h.inbound k <+: h'.inbound k
  broker : h.broker.Onward h'.broker

/-- Those who wait notice nothing. As long as the harness has not failed, nobody is told whether a
generation has started. -/
structure Quiet (h h' : Harness M) : Prop extends Older h h' where
  view : h'.view = h.view
  count : h'.generations.length = h.generations.length
  started : h.failure = none → ∀ k, (h'.life k).started = (h.life k).started

/-- No generation gets to another stage either. -/
structure Calm (h h' : Harness M) : Prop extends Quiet h h' where
  stages : ∀ k : Nat, h'.generations[k]?.map (·.stage) = h.generations[k]?.map (·.stage)

namespace Older

theorem refl : h.Older h :=
  ⟨Nat.le_refl _, fun _ => .refl, fun _ => List.prefix_rfl, .refl⟩

theorem trans (ho : h.Older h') (ho' : h'.Older h'') : h.Older h'' where
  length := Nat.le_trans ho.length ho'.length
  lives := fun k => (ho.lives k).trans (ho'.lives k)
  inbound := fun k => (ho.inbound k).trans (ho'.inbound k)
  broker := ho.broker.trans ho'.broker

theorem same (hg : h'.generations = h.generations) (hb : h.broker.Onward h'.broker) :
    h.Older h' where
  length := by rw [hg]
  lives := fun k => by
    rw [life, life, hg]
    exact .refl
  inbound := fun k => by
    have hsame : h'.inbound k = h.inbound k := by rw [Harness.inbound, hg, Harness.inbound]
    exact hsame ▸ List.prefix_rfl
  broker := hb

end Older

namespace Quiet

theorem clock (hq : h.Quiet h') : h'.clock = h.clock := congrArg (·.1) hq.view

theorem waits (hq : h.Quiet h') : h'.waits = h.waits := congrArg (·.2.1) hq.view

theorem waiters (hq : h.Quiet h') : h'.waiters = h.waiters := congrArg (·.2.2.1) hq.view

theorem current (hq : h.Quiet h') : h'.current = h.current := congrArg (·.2.2.2.1) hq.view

theorem failure (hq : h.Quiet h') : h'.failure = h.failure := congrArg (·.2.2.2.2.1) hq.view

theorem dropped (hq : h.Quiet h') : h'.dropped = h.dropped := congrArg (·.2.2.2.2.2) hq.view

theorem trans (hq : h.Quiet h') (hq' : h'.Quiet h'') : h.Quiet h'' where
  toOlder := hq.toOlder.trans hq'.toOlder
  view := hq'.view.trans hq.view
  count := hq'.count.trans hq.count
  started := fun hf k => (hq'.started (hq.failure.trans hf) k).trans (hq.started hf k)

end Quiet

namespace Calm

theorem same (hv : h'.view = h.view) (hg : h'.generations = h.generations)
    (hb : h.broker.Onward h'.broker) : h.Calm h' where
  toOlder := .same hg hb
  view := hv
  count := by rw [hg]
  started := fun _ k => by rw [life, life, hg]
  stages := fun _ => by rw [hg]

theorem refl : h.Calm h := .same rfl rfl .refl

theorem trans (hc : h.Calm h') (hc' : h'.Calm h'') : h.Calm h'' where
  toQuiet := hc.toQuiet.trans hc'.toQuiet
  stages := fun k => (hc'.stages k).trans (hc.stages k)

end Calm

/-! A generation changes. -/

theorem stage_changeLife : (h.changeLife g f).generations[k]?.map (·.stage) =
    h.generations[k]?.map (·.stage) := by
  rw [← List.getElem?_map, ← List.getElem?_map, stages_changeLife]

theorem length_changeGeneration {f : Generation → Generation} :
    (h.changeGeneration g f).generations.length = h.generations.length :=
  List.length_modify ..

theorem life_changeLife (hk : k < h.generations.length) :
    (h.changeLife g f).life k = if g = k then f (h.life k) else h.life k := by
  rw [life, life, changeLife, changeGeneration, List.getElem?_modify, List.getElem?_eq_getElem hk]
  by_cases hg : g = k <;> simp [hg]

theorem life_of_length_le (hk : h.generations.length ≤ k) : h.life k = {} := by
  rw [life, List.getElem?_eq_none hk]
  rfl

theorem inbound_changeGeneration {f : Generation → Generation}
    (hf : ∀ x, x.inbound <+: (f x).inbound) :
    h.inbound k <+: (h.changeGeneration g f).inbound k := by
  rw [inbound, inbound, changeGeneration, List.getElem?_modify]
  cases h.generations[k]? with
  | none => exact List.prefix_rfl
  | some x =>
    by_cases hg : g = k
    · simpa [hg] using hf x
    · simp [hg]

/-- A generation comes to those that are there. -/
theorem older_append {x : Generation} (hg : h'.generations = h.generations ++ [x])
    (hlife : x.life = {}) (hb : h.broker.Onward h'.broker) : h.Older h' where
  length := by
    rw [hg, List.length_append]
    exact Nat.le_add_right _ _
  lives := by
    intro k
    by_cases hk : k < h.generations.length
    · rw [life_append hg hk]
      exact .refl
    · rw [life_of_length_le (Nat.le_of_not_lt hk), life, hg]
      rcases Nat.eq_or_lt_of_le (Nat.le_of_not_lt hk) with rfl | hlt
      · rw [List.getElem?_concat_length]
        exact hlife ▸ .refl
      · rw [List.getElem?_eq_none (List.length_append.trans_le hlt)]
        exact .refl
  inbound := by
    intro k
    rw [inbound, inbound, hg]
    cases hx : h.generations[k]? with
    | none => exact List.nil_prefix
    | some y =>
      have hsame : (h.generations ++ [x])[k]? = some y := by
        rw [List.getElem?_append_left (List.getElem?_eq_some_iff.1 hx).1, hx]
      exact hsame ▸ List.prefix_rfl
  broker := hb

/-- What a change of lives means for each of them. -/
theorem life_changeLife_rel {R : Lifecycle → Lifecycle → Prop} (hrefl : ∀ l, R l l)
    (hf : R (h.life g) (f (h.life g))) : R (h.life k) ((h.changeLife g f).life k) := by
  by_cases hk : k < h.generations.length
  · rw [life_changeLife hk]
    split
    · next hg =>
      subst hg
      exact hf
    · exact hrefl _
  · have hle : (h.changeLife g f).generations.length ≤ k := by
      rw [changeLife, length_changeGeneration]
      omega
    rw [life_of_length_le hle, life_of_length_le (Nat.le_of_not_lt hk)]
    exact hrefl _

theorem older_changeLife (hages : (h.life g).Ages (f (h.life g))) : h.Older (h.changeLife g f) where
  length := Nat.le_of_eq length_changeGeneration.symm
  lives := fun _ => life_changeLife_rel (fun _ => .refl) hages
  inbound := fun _ => inbound_changeGeneration fun _ => List.prefix_rfl
  broker := .refl

theorem calm_changeLife (hages : (h.life g).Ages (f (h.life g)))
    (hstarted : h.failure = none → (f (h.life g)).started = (h.life g).started) :
    h.Calm (h.changeLife g f) where
  toOlder := older_changeLife hages
  view := rfl
  count := length_changeGeneration
  started := fun hf _ =>
    (life_changeLife_rel (R := fun l l' => l.started = l'.started) (fun _ => rfl) (hstarted hf).symm).symm
  stages := fun _ => stage_changeLife

/-- A change that does not concern the life of a generation. -/
theorem quiet_changeGeneration {f : Generation → Generation} (hf : ∀ x, (f x).life = x.life)
    (hin : ∀ x, x.inbound <+: (f x).inbound) : h.Quiet (h.changeGeneration g f) where
  length := Nat.le_of_eq length_changeGeneration.symm
  lives := by
    intro k
    rw [life_eq, life_eq, lives_changeGeneration hf]
    exact .refl
  inbound := fun _ => inbound_changeGeneration hin
  broker := .refl
  view := rfl
  count := length_changeGeneration
  started := fun _ k => by rw [life_eq, life_eq, lives_changeGeneration hf]

/-- A change that does not concern its stage either. -/
theorem calm_changeGeneration {f : Generation → Generation} (hf : ∀ x, (f x).life = x.life)
    (hin : ∀ x, x.inbound <+: (f x).inbound) (hs : ∀ x, (f x).stage = x.stage) :
    h.Calm (h.changeGeneration g f) where
  toQuiet := quiet_changeGeneration hf hin
  stages := by
    intro k
    rw [changeGeneration, List.getElem?_modify]
    cases h.generations[k]? with
    | none => rfl
    | some x => by_cases hg : g = k <;> simp [hg, hs]

theorem quiet_enter {stage : Stage} : h.Quiet (h.enter g stage) :=
  quiet_changeGeneration (fun _ => rfl) fun _ => List.prefix_rfl

/-! The harness fails. -/

/-- The generations after the current one has changed its life. -/
def changeCurrent (h : Harness M) (f : Lifecycle → Lifecycle) : Harness M :=
  match h.current with
  | none => h
  | some g => h.changeLife g f

theorem fail_eq (hf : h.failure = none) : h.fail e =
    { h.changeCurrent (·.setException e) with
      failure := some e
      current := none
      waits := resolveAll h.waits h.waiters fun _ => e
      waiters := []
      broker := h.broker.dispose } := by
  rw [fail, hf, changeCurrent]
  cases h.current with
  | none => simp only [shutDown, foldl_complete_eq]
  | some g =>
    simp only [shutDown, foldl_complete_eq]
    rfl

theorem fail_of_failure (hf : h.failure ≠ none) : h.fail e = h := by
  rw [fail]
  cases hfail : h.failure with
  | none => exact (hf hfail).elim
  | some _ => rfl

theorem dispose_eq (hf : h.failure ≠ some .disposed) : h.dispose =
    { h.changeCurrent (·.stop) with
      failure := some .disposed
      waits := resolveAll h.waits h.waiters fun _ => .cancelled
      waiters := []
      broker := h.broker.dispose } := by
  rw [dispose, if_neg hf, changeCurrent]
  cases hc : h.current with
  | none => simp only [shutDown, foldl_complete_eq]
  | some g =>
    simp only [shutDown, foldl_complete_eq]
    rfl

theorem dispose_of_disposed (hf : h.failure = some .disposed) : h.dispose = h := if_pos hf

theorem life_changeCurrent (hc : h.current = some g) (hg : g < h.generations.length) :
    (h.changeCurrent f).life g = f (h.life g) := by
  rw [changeCurrent, hc]
  simp only
  rw [life_changeLife hg, if_pos rfl]

theorem length_changeCurrent :
    (h.changeCurrent f).generations.length = h.generations.length := by
  rw [changeCurrent]
  split
  · rfl
  · exact length_changeGeneration

theorem changeCurrent_eq : ∃ generations, h.changeCurrent f = { h with generations } := by
  rw [changeCurrent]
  split
  · exact ⟨h.generations, rfl⟩
  · exact ⟨_, rfl⟩

theorem broker_changeCurrent : (h.changeCurrent f).broker = h.broker := by
  obtain ⟨generations, heq⟩ := changeCurrent_eq (h := h) (f := f)
  rw [heq]

theorem older_changeCurrent (hf : ∀ l : Lifecycle, l.Ages (f l)) : h.Older (h.changeCurrent f) := by
  rw [changeCurrent]
  split
  · exact .refl
  · exact older_changeLife (hf _)

theorem older_fail : h.Older (h.fail e) := by
  by_cases hf : h.failure = none
  · rw [fail_eq hf]
    refine (older_changeCurrent fun _ => Lifecycle.ages_setException).trans (.same rfl ?_)
    rw [broker_changeCurrent]
    exact Broker.onward_dispose
  · rw [fail_of_failure hf]
    exact .refl

theorem older_failGeneration : h.Older (h.failGeneration g e) :=
  (older_changeLife Lifecycle.ages_setException).trans older_fail

theorem older_dispose : h.Older h.dispose := by
  by_cases hf : h.failure = some .disposed
  · rw [dispose_of_disposed hf]
    exact .refl
  · rw [dispose_eq hf]
    refine (older_changeCurrent fun _ => Lifecycle.ages_stop).trans (.same rfl ?_)
    rw [broker_changeCurrent]
    exact Broker.onward_dispose

/-! Business. -/

/-- What goes on behind the back of those who wait, unless the harness fails on the way. -/
inductive Business (h : Harness M) : Harness M → Prop
  | calm {h' : Harness M} : h.Calm h' → Business h h'
  | failed {h' : Harness M} (h₁ : Harness M) (e : HarnessError) : h.failure = none →
    h.Calm h₁ → e.isFault = true → (h₁.fail e).Calm h' → Business h h'
  /-- A generation fails, and the harness with it. -/
  | blamed {h' : Harness M} (h₁ : Harness M) (g : Nat) (e : HarnessError) : h.failure = none →
    h.Calm h₁ → e.isFault = true → (h₁.failGeneration g e).Calm h' → Business h h'

theorem failure_failGeneration : (h.failGeneration g e).failure ≠ none := failure_fail _ _

theorem Business.refl : h.Business h := .calm .refl

theorem Business.trans (hb : h.Business h') (hb' : h'.Business h'') :
    h.Business h'' := by
  cases hb with
  | calm hc =>
    cases hb' with
    | calm hc' => exact .calm (hc.trans hc')
    | failed h₁ e hf hc' he ht => exact .failed h₁ e (hc.failure ▸ hf) (hc.trans hc') he ht
    | blamed h₁ g e hf hc' he ht => exact .blamed h₁ g e (hc.failure ▸ hf) (hc.trans hc') he ht
  | failed h₁ e hf hc he ht =>
    have hfailed : h'.failure ≠ none := ht.failure ▸ failure_fail _ _
    cases hb' with
    | calm hc' => exact .failed h₁ e hf hc he (ht.trans hc')
    | failed _ _ hf' _ _ _ | blamed _ _ _ hf' _ _ _ => exact (hfailed hf').elim
  | blamed h₁ g e hf hc he ht =>
    have hfailed : h'.failure ≠ none := ht.failure ▸ failure_failGeneration
    cases hb' with
    | calm hc' => exact .blamed h₁ g e hf hc he (ht.trans hc')
    | failed _ _ hf' _ _ _ | blamed _ _ _ hf' _ _ _ => exact (hfailed hf').elim

theorem Calm.then (hc : h.Calm h') (hb : h'.Business h'') : h.Business h'' :=
  (Business.calm hc).trans hb

theorem business_fail (he : e.isFault = true) : h.Business (h.fail e) := by
  cases hf : h.failure with
  | none => exact .failed h e hf .refl he .refl
  | some _ =>
    rw [fail_of_failure (by simp [hf])]
    exact .refl

theorem business_failGeneration (he : e.isFault = true ∨ h.failure ≠ none) :
    h.Business (h.failGeneration g e) := by
  cases hf : h.failure with
  | none =>
    rcases he with he | hne
    · exact .blamed h g e hf .refl he .refl
    · exact (hne hf).elim
  | some _ =>
    have hfailed : (h.changeLife g (·.setException e)).failure ≠ none := by
      change h.failure ≠ none
      simp [hf]
    rw [failGeneration, fail_of_failure hfailed]
    exact .calm (calm_changeLife Lifecycle.ages_setException fun hnone => by simp [hf] at hnone)

theorem business_failAll {consumers : List (Consumer Nat)} (he : e.isFault = true) :
    h.Business (consumers.foldl (fun h _ => h.fail e) h) := by
  induction consumers generalizing h with
  | nil => exact .refl
  | cons _ rest ih => exact (business_fail he).trans ih

theorem onward_harnessNack {tag : Nat} {multiple : Bool} :
    h.broker.Onward (h.nack cfg tag multiple).1.broker := by
  rw [nack]
  split
  · exact .refl
  · exact Broker.onward_nack

theorem onward_harnessAck {tag : Nat} : h.broker.Onward (h.ack cfg tag).1.broker := by
  rw [ack]
  split
  · exact .refl
  · exact Broker.onward_ack

theorem onward_nackAll {rejects : List (Nat × Bool)} :
    h.broker.Onward (h.nackAll cfg rejects).1.broker := by
  induction rejects generalizing h with
  | nil => exact .refl
  | cons r rest ih =>
    have hone : h.broker.Onward (h.nack cfg r.1 r.2).1.broker := onward_harnessNack
    rw [nackAll]
    cases hr : h.nack cfg r.1 r.2 with
    | mk h₁ result =>
      rw [hr] at hone
      cases result with
      | ok => exact hone.trans ih
      | error e => exact hone

theorem business_teardown : h.Business (h.teardown cfg g) := by
  cases hc : (h.life g).setComplete ((h.generations[g]?.map (·.consumer)).getD "") with
  | mk life answer =>
    cases answer with
    | error e =>
      rw [teardown, hc, Lifecycle.setComplete_error hc]
      simp only
      rw [changeLife_life (f := (·.setException e))]
      exact business_failGeneration (.inl (Lifecycle.fault_of_setComplete hc))
    | ok =>
      obtain ⟨hages, hstarted⟩ := Lifecycle.ages_setComplete hc
      have hcomplete : h.Calm (h.changeLife g fun _ => life) :=
        calm_changeLife hages fun _ => hstarted
      obtain ⟨broker, heq⟩ := nackAll_eq cfg
        { h.changeLife g fun _ => life with ledger := h.ledger.teardown.2 } h.ledger.teardown.1.rejects
      have honward : h.broker.Onward (({ h.changeLife g fun _ => life with
          ledger := h.ledger.teardown.2 } : Harness M).nackAll cfg
            h.ledger.teardown.1.rejects).1.broker :=
        onward_nackAll (h := { h.changeLife g fun _ => life with ledger := h.ledger.teardown.2 })
      rw [teardown, hc]
      simp only
      cases hr : ({ h.changeLife g fun _ => life with
          ledger := h.ledger.teardown.2 } : Harness M).nackAll cfg h.ledger.teardown.1.rejects with
      | mk h₁ result =>
        rw [hr] at heq honward
        have hsame : (h.changeLife g fun _ => life).Calm h₁ := by
          rw [show h₁ = _ from heq]
          rw [show h₁ = _ from heq] at honward
          exact .same rfl rfl honward
        have hcalm := hcomplete.trans hsame
        cases result with
        | ok =>
          exact .calm (hcalm.trans (calm_changeLife Lifecycle.ages_signalStopped
            fun _ => Lifecycle.signalStopped_started))
        | error e => exact hcalm.then (business_failGeneration (.inl rfl))

theorem business_confirm {c : Consumer Nat} : h.Business (h.confirm cfg c) :=
  business_teardown.trans (.calm (.same rfl rfl Broker.onward_confirmCancel))

theorem business_confirmAll {held : List (Consumer Nat)} :
    h.Business (held.foldl (fun (h : Harness M) c => h.confirm cfg c) h) := by
  induction held generalizing h with
  | nil => exact .refl
  | cons c rest ih => exact business_confirm.trans ih

/-! How the harness fails. -/

/-- The harness fails with an error, all at once: whoever is listed is told so, whoever waits for the
current generation is, this generation is over, and the broker is released. -/
structure Falls (h : Harness M) (e : HarnessError) (h' : Harness M) : Prop extends Older h h' where
  count : h'.generations.length = h.generations.length
  unfailed : h.failure = none
  fault : e.isFault = true
  view : h'.view =
    (h.clock, resolveAll h.waits h.waiters fun _ => e, [], none, some e, h.dropped)
  errored : ∀ g, h.current = some g → (h'.life g).state = .errored
  answered : ∀ g, h.current = some g → (h.life g).Frank → (h.life g).started = .pending →
    (h'.life g).started = .resolved (.error e)
  released : h'.broker.disposed = true

theorem falls_fail (hlt : ∀ g, h.current = some g → g < h.generations.length)
    (hf : h.failure = none) (he : e.isFault = true) : h.Falls e (h.fail e) := by
  have hlife : ∀ g, h.current = some g → (h.fail e).life g = (h.life g).setException e := by
    intro g hc
    rw [← life_changeCurrent (f := (·.setException e)) hc (hlt g hc), fail_eq hf]
    rfl
  refine ⟨older_fail, ?_, hf, he, ?_, fun g hc => ?_, fun g hc hfrank hp => ?_, ?_⟩
  · rw [fail_eq hf]
    exact length_changeCurrent
  · obtain ⟨generations, heq⟩ := changeCurrent_eq (h := h) (f := (·.setException e))
    rw [fail_eq hf, heq]
    rfl
  · rw [hlife g hc]
    exact Lifecycle.setException_state
  · rw [hlife g hc]
    exact Lifecycle.setException_answers hfrank hp
  · rw [fail_eq hf]
    exact Broker.disposed_dispose

theorem Falls.before (hq : h.Quiet h₁) (hf : h₁.Falls e h') : h.Falls e h' where
  toOlder := hq.toOlder.trans hf.toOlder
  count := hf.count.trans hq.count
  unfailed := hq.failure.symm.trans hf.unfailed
  fault := hf.fault
  view := by rw [hf.view, hq.clock, hq.waits, hq.waiters, hq.dropped]
  errored := fun g hc => hf.errored g (hq.current.trans hc)
  answered := fun g hc hfrank hp => hf.answered g (hq.current.trans hc) ((hq.lives g).frank hfrank)
    ((hq.started (hq.failure.symm.trans hf.unfailed) g).trans hp)
  released := hf.released

theorem Falls.after (hf : h.Falls e h₁) (hq : h₁.Quiet h') : h.Falls e h' where
  toOlder := hf.toOlder.trans hq.toOlder
  count := hq.count.trans hf.count
  unfailed := hf.unfailed
  fault := hf.fault
  view := hq.view.trans hf.view
  errored := fun g hc => (hq.lives g).errored (hf.errored g hc)
  answered := fun g hc hfrank hp => (hq.lives g).started _ (hf.answered g hc hfrank hp)
  released := (hq.broker.released hf.released).1

theorem falls_failGeneration (hlt : ∀ g, h.current = some g → g < h.generations.length)
    (hf : h.failure = none) (he : e.isFault = true) : h.Falls e (h.failGeneration g e) := by
  have hlen : (h.changeLife g (·.setException e)).generations.length = h.generations.length :=
    length_changeGeneration
  have hfalls : (h.changeLife g (·.setException e)).Falls e (h.failGeneration g e) :=
    falls_fail (fun k hc => hlen ▸ hlt k hc) hf he
  refine ⟨older_failGeneration, hfalls.count.trans hlen, hf, he, hfalls.view, hfalls.errored,
    fun k hc hfrank hp => ?_, hfalls.released⟩
  -- The generation that fails may be the current one, which is told so before the others are.
  have hlife := life_changeLife (f := (·.setException e)) (g := g) (hlt k hc)
  split at hlife
  · refine (hfalls.lives k).started _ ?_
    rw [hlife]
    exact Lifecycle.setException_answers hfrank hp
  · refine hfalls.answered k hc ?_ ?_
    · rw [hlife]
      exact hfrank
    · rw [hlife]
      exact hp

/-- Either those who wait notice nothing, or the harness fails. -/
theorem Business.cases (hb : h.Business h')
    (hlt : ∀ g, h.current = some g → g < h.generations.length) :
    h.Calm h' ∨ ∃ e, h.Falls e h' := by
  have hlt' : ∀ {h₁ : Harness M}, h.Calm h₁ →
      ∀ g, h₁.current = some g → g < h₁.generations.length := by
    intro h₁ hc g hg
    rw [hc.count]
    exact hlt g (hc.current.symm.trans hg)
  cases hb with
  | calm hc => exact .inl hc
  | failed h₁ e hf hc he ht =>
    have hfalls : h₁.Falls e (h₁.fail e) := falls_fail (hlt' hc) (hc.failure.trans hf) he
    exact .inr ⟨e, (hfalls.before hc.toQuiet).after ht.toQuiet⟩
  | blamed h₁ g e hf hc he ht =>
    have hfalls : h₁.Falls e (h₁.failGeneration g e) :=
      falls_failGeneration (hlt' hc) (hc.failure.trans hf) he
    exact .inr ⟨e, (hfalls.before hc.toQuiet).after ht.toQuiet⟩

/-! The consumer of a generation. -/

/-- A generation gets to another stage, where it does not route deliveries, and does business. -/
inductive Proceeds (h : Harness M) (g : Nat) (stage : Stage) : Harness M → Prop
  | mk {h' : Harness M} (h₁ : Harness M) : h.Calm h₁ → (∀ d, stage ≠ .routing d) →
    (h₁.enter g stage).Business h' → Proceeds h g stage h'

/-- A generation comes to route deliveries, and its start is confirmed. -/
inductive Attached (h : Harness M) (g : Nat) : Harness M → Prop
  | mk (h₁ : Harness M) : h.Calm h₁ →
    Attached h g ((h₁.enter g (.routing none)).changeLife g (·.setStarted))

theorem stage_enter {stage : Stage} (hk : g ≠ k) :
    (h.enter g stage).generations[k]?.map (·.stage) = h.generations[k]?.map (·.stage) := by
  rw [enter, changeGeneration, List.getElem?_modify_ne _ _ hk]

theorem stage_enter_self {stage stage' : Stage}
    (hs : (h.enter g stage).generations[g]?.map (·.stage) = some stage') : stage' = stage := by
  rw [enter, changeGeneration, List.getElem?_modify_eq] at hs
  cases hx : h.generations[g]? with
  | none => simp [hx] at hs
  | some x => simpa [hx] using hs.symm

/-- Unless the harness fails, only the generation that proceeds gets to another stage. -/
theorem Proceeds.cases {stage : Stage} (hp : h.Proceeds g stage h')
    (hlt : ∀ g, h.current = some g → g < h.generations.length) :
    (h.Quiet h' ∧ (∀ d, stage ≠ .routing d) ∧
      (∀ k, k ≠ g → h'.generations[k]?.map (·.stage) = h.generations[k]?.map (·.stage)) ∧
      ∀ stage', h'.generations[g]?.map (·.stage) = some stage' → stage' = stage) ∨
      ∃ e, h.Falls e h' := by
  cases hp with
  | mk h₁ hc hs hb =>
    have hq : h.Quiet (h₁.enter g stage) := hc.toQuiet.trans quiet_enter
    have hlt' : ∀ k, (h₁.enter g stage).current = some k →
        k < (h₁.enter g stage).generations.length := by
      intro k hk
      rw [hq.count]
      exact hlt k (hq.current.symm.trans hk)
    rcases hb.cases hlt' with hcalm | ⟨e, hf⟩
    · refine .inl ⟨hq.trans hcalm.toQuiet, hs, fun k hk => ?_, fun stage' hstage => ?_⟩
      · rw [hcalm.stages, stage_enter (Ne.symm hk), hc.stages]
      · rw [hcalm.stages] at hstage
        exact stage_enter_self hstage
    · exact .inr ⟨e, hf.before hq⟩

/-- Nobody but those who wait for the generation notice that it is attached. -/
theorem Attached.older (ha : h.Attached g h') : h.Older h' ∧ h'.view = h.view ∧
    h'.generations.length = h.generations.length ∧
    (∀ k, k ≠ g → h'.generations[k]?.map (·.stage) = h.generations[k]?.map (·.stage)) ∧
    ∀ d, h'.generations[g]?.map (·.stage) = some (.routing d) → d = none := by
  cases ha with
  | mk h₁ hc =>
    have hq : h.Quiet (h₁.enter g (.routing none)) := hc.toQuiet.trans quiet_enter
    refine ⟨hq.toOlder.trans (older_changeLife Lifecycle.ages_setStarted), hq.view,
      length_changeGeneration.trans hq.count, fun k hk => ?_, fun d hd => ?_⟩
    · rw [stage_changeLife, stage_enter (Ne.symm hk), hc.stages]
    · rw [stage_changeLife] at hd
      exact Stage.routing.inj (stage_enter_self hd)

theorem Calm.proceeds {stage : Stage} (hc : h.Calm h₁) (hp : h₁.Proceeds g stage h') :
    h.Proceeds g stage h' := by
  cases hp with
  | mk h₂ hc' hs hb => exact .mk h₂ (hc.trans hc') hs hb

theorem Calm.attached (hc : h.Calm h₁) (ha : h₁.Attached g h') : h.Attached g h' := by
  cases ha with
  | mk h₂ hc' => exact .mk h₂ (hc.trans hc')

theorem proceeds_startFailed (he : e.isFault = true ∨ h.failure ≠ none) :
    h.Proceeds g .ended (h.startFailed g e) :=
  .mk h .refl nofun (business_failGeneration he)

theorem attach_cases : h.Proceeds g .ended (h.attach cfg g) ∨ h.Attached g (h.attach cfg g) := by
  have honward : h.broker.Onward (h.broker.start ((h.generations[g]?.map (·.consumer)).getD "")
    cfg.settings.priority.toInt g).1 := Broker.onward_start
  rw [attach]
  cases hb : h.broker.start ((h.generations[g]?.map (·.consumer)).getD "")
      cfg.settings.priority.toInt g with
  | mk broker result =>
    rw [hb] at honward
    have hcalm : h.Calm { h with broker } := .same rfl rfl honward
    cases result with
    | ok => exact .inr (.mk { h with broker } hcalm)
    | error e => exact .inl (hcalm.proceeds (proceeds_startFailed (.inl rfl)))

theorem subscribe_cases :
    (∃ stage, h.Proceeds g stage (h.subscribe cfg g)) ∨ h.Attached g (h.subscribe cfg g) := by
  rw [subscribe]
  split
  · exact .inl ⟨.ended, .mk h .refl (by simp) business_teardown⟩
  · have hasked : h.Calm { h with subscriptions := h.subscriptions ++ [g] } :=
      .same rfl rfl .refl
    have hcalm : h.Calm ({ h with
        subscriptions := h.subscriptions ++ [g] }.changeGeneration g fun x =>
          { x with consumer := cfg.consumerTag h.subscriptions.length }) :=
      hasked.trans (calm_changeGeneration (fun _ => rfl) (fun _ => List.prefix_rfl) fun _ => rfl)
    simp only
    split
    · exact attach_cases.imp (fun hp => ⟨.ended, hcalm.proceeds hp⟩) hcalm.attached
    · exact .inl ⟨.ended, hcalm.proceeds (proceeds_startFailed (.inl rfl))⟩
    · next ms error _ =>
      exact .inl ⟨.subscribing (h.clock + ms) (h.clock + cfg.timeout) error,
        hcalm.proceeds (.mk _ .refl (by simp) .refl)⟩

theorem business_leave : (h.enter g .ended).Business (h.leave cfg g) := by
  have hasked : (h.enter g .ended).Calm
      { h.enter g .ended with cancelCalls := h.cancelCalls + 1 } := .same rfl rfl .refl
  rw [leave]
  simp only
  split
  · exact hasked.then (business_fail rfl)
  · have hcancel : ∀ {consumer : String} {broker : Broker Nat}
        {result : Except BrokerError (Option (Consumer Nat))},
        h.broker.cancel consumer = (broker, result) → (h.enter g .ended).Calm
          { h.enter g .ended with cancelCalls := h.cancelCalls + 1, broker } := by
      intro consumer broker result hb
      have honward : h.broker.Onward (h.broker.cancel consumer).1 := Broker.onward_cancel
      rw [hb] at honward
      exact hasked.trans (.same rfl rfl honward)
    split
    · next hb => exact (hcancel hb).then (business_fail rfl)
    · next hb => exact .calm (hcancel hb)
    · next hb => exact (hcancel hb).then business_confirm

theorem proceeds_leave : h.Proceeds g .ended (h.leave cfg g) :=
  .mk h .refl nofun business_leave

/-! Claims. -/

theorem calm_returnPermit : h.Calm h.returnPermit := by
  rw [returnPermit]
  split <;> exact .same rfl rfl .refl

theorem calm_settle {tag : Nat} {settlement : Settlement} :
    h.Calm (h.settle tag settlement) := by
  obtain ⟨ledger, heq⟩ := settle_eq h tag settlement
  rw [heq]
  exact .same rfl rfl .refl

theorem business_rejectFailed {tag : Nat} : h.Business (h.rejectFailed cfg tag) := by
  rw [rejectFailed]
  split
  · have honward : (h.settle tag .alreadyNacked).broker.Onward
        ((h.settle tag .alreadyNacked).nack cfg tag false).1.broker := onward_harnessNack
    obtain ⟨broker, heq⟩ := nack_eq cfg (h.settle tag .alreadyNacked) tag false
    cases hr : (h.settle tag .alreadyNacked).nack cfg tag false with
    | mk h₁ result =>
      rw [hr] at heq honward
      obtain rfl : h₁ = { h.settle tag .alreadyNacked with broker } := heq
      have hcalm : h.Calm { h.settle tag .alreadyNacked with broker } :=
        calm_settle.trans (.same rfl rfl honward)
      cases result with
      | ok => exact .calm hcalm
      | error e => exact hcalm.then (business_fail rfl)
  · exact .calm calm_settle

/-- What is answered for a claim as it comes to its end: its delivery was acknowledged, the
acknowledgement failed, the callback did, or there is no callback. -/
inductive Answers (cfg : Setup M) (h : Harness M) (x : Claim M) : Outcome M → Prop
  | acked : x.stage = .running (.returned (.ok ())) → (h.ack cfg x.tag).2 = .ok () →
    Answers cfg h x (.ok x.message)
  | lost (e : BrokerError) : x.stage = .running (.returned (.ok ())) →
    (h.ack cfg x.tag).2 = .error e → Answers cfg h x (.error (.transport e))
  | failed (failure : Failure) : x.stage = .running (.returned (.error failure)) →
    Answers cfg h x (.error (.processing x.tag failure))
  | brokenOff : x.stage = .claimed ∨ x.stage = .granted → x.callback = none →
    Answers cfg h x (.error .cancelled)

/-- A waiter that left with a claim gets an outcome. That is an error of the harness only if this has
failed. -/
inductive Answered (h : Harness M) (i : Nat) (outcome : Outcome M) : Harness M → Prop
  | mk {h' : Harness M} (h₁ : Harness M) : h.Business h₁ → (h₁.complete i outcome).Calm h' →
    (∀ e, outcome = .error e → e.isTerminal = true → h₁.failure ≠ none) →
    Answered h i outcome h'

/-- A claim that is answered for comes to its last stage and gives its permit back. -/
theorem calm_concluded {i : Nat} {outcome : Outcome M} {stage : ClaimStage} :
    (h.complete i outcome).Calm (((h.complete i outcome).enterClaim c stage).returnPermit) := by
  have hover : (h.complete i outcome).Calm ((h.complete i outcome).enterClaim c stage) :=
    .same rfl rfl .refl
  exact hover.trans calm_returnPermit

theorem answered_conclude {x : Claim M} {result : Except Failure Unit} (ha : h.Attended cfg)
    (hx : h.claims[c]? = some x) (hs : x.stage = .running (.returned result)) :
    ∃ outcome, h.Answers cfg x outcome ∧ h.Answered x.wait outcome (h.conclude cfg c x result) := by
  obtain ⟨_, _, hv, _, _⟩ := ha.wait_of_claim (List.mem_of_getElem? hx)
  unfold conclude
  cases result with
  | ok =>
    have honward : h.broker.Onward (h.ack cfg x.tag).1.broker := onward_harnessAck
    obtain ⟨broker, heq⟩ := ack_eq cfg h x.tag
    cases hr : h.ack cfg x.tag with
    | mk h₁ answer =>
      rw [hr] at heq honward
      obtain rfl : h₁ = { h with broker } := heq
      have hcalm : h.Calm { h with broker } := .same rfl rfl honward
      cases answer with
      | ok =>
        exact ⟨_, .acked hs (congrArg (·.2) hr),
          .mk _ (.calm (hcalm.trans calm_settle)) calm_concluded nofun⟩
      | error e =>
        have hv' : ({ h with broker } : Harness M).waitersOf x.wait = [] := hv
        simp only
        rw [← complete_fail hv']
        refine ⟨_, .lost e hs (congrArg (·.2) hr),
          .mk _ (hcalm.then (business_fail rfl)) calm_concluded fun e' _ _ => failure_fail _ _⟩
  | error failure =>
    refine ⟨_, .failed failure hs, .mk _ business_rejectFailed calm_concluded fun e' he ht => ?_⟩
    cases he
    cases ht

theorem calm_act {x : Claim M} {actions : List Action} : h.Calm (h.act c x actions) := by
  obtain ⟨notes, heq, _⟩ := act_eq h c x actions
  rw [heq]
  exact .same rfl rfl .refl

theorem calm_stepCallback? (hs : h.stepCallback? c = some h') : h.Calm h' := by
  rw [stepCallback?, Option.bind_eq_bind, Option.bind_eq_some_iff] at hs
  obtain ⟨x, hx, hs⟩ := hs
  split at hs
  · cases hs
    have hnoted : h.Calm (h.noteCall (.began x.tag x.message)) := .same rfl rfl .refl
    exact hnoted.trans calm_act
  · split at hs <;> cases hs
    exact calm_act
  · split at hs <;> cases hs
    exact calm_act
  · cases hs

theorem Calm.answered {i : Nat} {outcome : Outcome M} (hc : h.Calm h₁)
    (ha : h₁.Answered i outcome h') : h.Answered i outcome h' := by
  cases ha with
  | mk h₂ hb hend herrors => exact .mk h₂ (hc.then hb) hend herrors

/-- A claim with a permit lets its callback run, or is answered for since there is none. -/
theorem launch_cases (h : Harness M) (c : Nat) (x : Claim M) : h.Calm (h.launch c x) ∨
    x.callback = none ∧ h.Answered x.wait (.error .cancelled) (h.launch c x) := by
  rw [launch]
  split
  · exact .inl (.same rfl rfl .refl)
  · next hnone =>
    refine .inr ⟨hnone, .mk h (.calm .refl) calm_concluded fun e he ht => ?_⟩
    cases he
    cases ht

theorem takePermit_cases (h : Harness M) (c : Nat) (x : Claim M) : h.Calm (h.takePermit c x) ∨
    x.callback = none ∧ h.Answered x.wait (.error .cancelled) (h.takePermit c x) := by
  rw [takePermit]
  split
  · have htaken : h.Calm { h with permits := h.permits - 1 } := .same rfl rfl .refl
    rcases launch_cases { h with permits := h.permits - 1 } c x with hcalm | ⟨hnone, hanswered⟩
    · exact .inl (htaken.trans hcalm)
    · exact .inr ⟨hnone, htaken.answered hanswered⟩
  · exact .inl (.same rfl rfl .refl)

/-! What comes from outside. -/

theorem calm_receive {d : Delivery} : h.Calm (h.receive g d) := by
  have hobserved : h.Calm { h with ledger := h.ledger.observe d.tag } := .same rfl rfl .refl
  exact hobserved.trans (calm_changeGeneration (fun _ => rfl)
    (fun x => List.prefix_append x.inbound [d]) fun _ => rfl)

theorem calm_publish {body : Body} : h.Calm (h.publish body).1 := by
  have honward : h.broker.Onward (h.broker.publish body).1 := Broker.onward_publish
  rw [publish]
  split
  · next hb =>
    rw [hb] at honward
    exact .same rfl rfl honward
  · next broker tag g hb =>
    rw [hb] at honward
    have hcalm : h.Calm { h with broker } := .same rfl rfl honward
    exact hcalm.trans calm_receive

theorem calm_publishAll {bodies : List Body} : h.Calm (h.publishAll bodies).1 := by
  induction bodies generalizing h with
  | nil => exact .refl
  | cons body rest ih => exact calm_publish.trans ih

theorem business_handle {event : ConsumerEvent} : h.Business (h.handle cfg g event) := by
  cases event with
  | received tag body => exact .calm calm_receive
  | cancelled => exact business_teardown
  | failed e => exact business_fail rfl

end Harness
end Intercept
