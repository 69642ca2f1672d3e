import Intercept.Proofs.Harness.Turns

/-! What deeds leave alone: the generations go on, the waiters keep their order, and a deed that is
not loud touches neither the books nor the deliveries. -/
namespace Intercept
variable {M : Type}

/-- What a claim is about, and whether its delivery is still to be settled. -/
def Claim.subject (x : Claim M) : Nat × Nat × Nat × M × Option (List Action) × Bool :=
  (x.tag, x.wait, x.generation, x.message, x.callback, x.stage.isOpen)

theorem restage_subject {claims : List (Claim M)} {c : Nat} {x : Claim M} {stage : ClaimStage}
    (hx : claims[c]? = some x) (hopen : stage.isOpen = x.stage.isOpen) :
    (restage claims c stage).map Claim.subject = claims.map Claim.subject := by
  apply List.ext_getElem?
  intro k
  rw [restage, List.getElem?_map, List.getElem?_map]
  by_cases hk : c = k
  · subst hk
    rw [List.getElem?_modify_eq, hx]
    exact congrArg (fun o => some (x.tag, x.wait, x.generation, x.message, x.callback, o)) hopen
  · rw [List.getElem?_modify_ne _ _ hk]

/-- Elements leave a list, and only new ones come last. -/
def Renewed {α : Type} (old : α → Prop) (xs ys : List α) : Prop :=
  ∃ kept fresh, ys = kept ++ fresh ∧ kept.Sublist xs ∧ ∀ a ∈ fresh, ¬ old a

section
variable {α β : Type} {old old' : α → Prop} {xs ys zs : List α} {a : α}

theorem Renewed.of_sublist (hs : ys.Sublist xs) : Renewed old xs ys :=
  ⟨ys, [], (List.append_nil _).symm, hs, nofun⟩

theorem Renewed.trans (hr : Renewed old xs ys) (hr' : Renewed old' ys zs)
    (hsub : ∀ a, old a → old' a) : Renewed old xs zs := by
  obtain ⟨kept, fresh, rfl, hkept, hfresh⟩ := hr
  obtain ⟨kept', fresh', rfl, hkept', hfresh'⟩ := hr'
  obtain ⟨early, late, rfl, hearly, hlate⟩ := List.sublist_append_iff.1 hkept'
  refine ⟨early, late ++ fresh', List.append_assoc .., hearly.trans hkept, fun a ha => ?_⟩
  rcases List.mem_append.1 ha with ha | ha
  · exact hfresh a (hlate.subset ha)
  · exact fun ho => hfresh' a ha (hsub a ho)

/-- Who is not new was there before. -/
theorem Renewed.mem (hr : Renewed old xs ys) (ha : a ∈ ys) (ho : old a) : a ∈ xs := by
  obtain ⟨kept, fresh, rfl, hkept, hfresh⟩ := hr
  rcases List.mem_append.1 ha with ha | ha
  · exact hkept.subset ha
  · exact (hfresh a ha ho).elim

theorem Renewed.map {f : α → β} {p : β → Prop} (hr : Renewed (fun a => p (f a)) xs ys) :
    Renewed p (xs.map f) (ys.map f) := by
  obtain ⟨kept, fresh, rfl, hkept, hfresh⟩ := hr
  refine ⟨kept.map f, fresh.map f, List.map_append, hkept.map f, fun b hb => ?_⟩
  obtain ⟨a, ha, rfl⟩ := List.mem_map.1 hb
  exact hfresh a ha

end

namespace Harness
variable {cfg : Setup M} {loud : Prop} {h h' h'' : Harness M} {g i : Nat}

/-- The deliveries that a generation received and has not handed out. -/
def inbound (h : Harness M) (g : Nat) : List Delivery :=
  (h.generations[g]?.map (·.inbound)).getD []

/-- What the claims are about. -/
def subjects (h : Harness M) : List (Nat × Nat × Nat × M × Option (List Action) × Bool) :=
  h.claims.map Claim.subject

/-- The generation has handed its messages back. -/
def Completed (h : Harness M) (g : Nat) : Prop := (h.life g).fullyStopped = .resolved (.ok ())

/-- The consumer of the generation is over. -/
def Gone (h : Harness M) (g : Nat) : Prop := ∃ x, h.generations[g]? = some x ∧ x.stage = .ended

/-- The wait was registered once, or turned away. -/
def Enrolled (h : Harness M) (i : Nat) : Prop := ∃ w, h.waits[i]? = some w ∧ w.stage ≠ .calling

/-- What the ledger and the broker have noted about the deliveries. -/
def books (h : Harness M) : Ledger × Nat × List (Nat × Body) × List Nat × List Nat :=
  (h.ledger, h.broker.lastTag, h.broker.unsettled, h.broker.acked, h.broker.nacked)

theorem inbound_of_some {x : Generation} (hx : h.generations[g]? = some x) :
    h.inbound g = x.inbound := by
  rw [inbound, hx]
  rfl

/-! Generations go on. -/

/-- The generations go on, and new ones come last. -/
def Grows (h h' : Harness M) : Prop :=
  ∀ (g : Nat) (x : Generation), h.generations[g]? = some x → ∃ y, h'.generations[g]? = some y ∧
    x.life.Onward y.life ∧ (x.stage = .ended → y.stage = .ended)

theorem Grows.refl : h.Grows h := fun _ x hx => ⟨x, hx, .refl, id⟩

theorem Grows.of_eq (hg : h'.generations = h.generations) : h.Grows h' :=
  fun _ x hx => ⟨x, hg ▸ hx, .refl, id⟩

theorem Grows.trans (hd : h.Grows h') (hd' : h'.Grows h'') : h.Grows h'' := by
  intro g x hx
  obtain ⟨y, hy, hlife, hended⟩ := hd g x hx
  obtain ⟨z, hz, hlife', hended'⟩ := hd' g y hy
  exact ⟨z, hz, hlife.trans hlife', hended' ∘ hended⟩

theorem Grows.changeGeneration {φ : Generation → Generation}
    (hφ : ∀ x, h.generations[g]? = some x → x.Forward (φ x)) : h.Grows (h.changeGeneration g φ) := by
  intro k x hx
  by_cases hk : g = k
  · subst hk
    exact ⟨φ x, getElem?_changeGeneration hx, (hφ x hx).life, (hφ x hx).ended⟩
  · exact ⟨x, (List.getElem?_modify_ne _ _ hk).trans hx, .refl, id⟩

theorem Grows.append {x : Generation} (hg : h'.generations = h.generations ++ [x]) :
    h.Grows h' := by
  intro k y hy
  refine ⟨y, ?_, .refl, id⟩
  rw [hg, List.getElem?_append_left (List.getElem?_eq_some_iff.1 hy).1, hy]

theorem Grows.gone (hd : h.Grows h') (hg : h.Gone g) : h'.Gone g := by
  obtain ⟨x, hx, hs⟩ := hg
  obtain ⟨y, hy, _, hended⟩ := hd g x hx
  exact ⟨y, hy, hended hs⟩

theorem Grows.completed (hd : h.Grows h') (hg : h.Completed g) : h'.Completed g := by
  cases hx : h.generations[g]? with
  | none =>
    rw [Completed, life, hx] at hg
    cases hg
  | some x =>
    obtain ⟨y, hy, hlife, _⟩ := hd g x hx
    rw [Completed, life_of_some (lives_of_some hx)] at hg
    rw [Completed, life_of_some (lives_of_some hy)]
    exact hlife.fullyStopped _ hg

theorem Deed.grows (ha : h.Attended cfg) (hd : Deed loud h h') : h.Grows h' := by
  cases hd with
  | quiet hs =>
    simp only [scene, Prod.mk.injEq] at hs
    exact .of_eq hs.2.2.2.2.2.2.1
  | received g d _ =>
    refine Grows.changeGeneration (h := { h with ledger := h.ledger.observe d.tag }) fun x hx => ?_
    exact ⟨.refl, id, fun d => ha.opened g x d hx, ha.unopened g x hx, id, fun _ => id⟩
  | moved g φ hφ => exact .changeGeneration fun x hx => (hφ x hx).toForward
  | created i w _ _ _ _ => exact .append rfl
  | began c x actions _ _ =>
    obtain ⟨notes, heq, _⟩ := act_eq (h.noteCall (.began x.tag x.message)) c x actions
    rw [heq]
    exact .of_eq rfl
  | resumed c x actions _ _ =>
    obtain ⟨notes, heq, _⟩ := act_eq h c x actions
    rw [heq]
    exact .of_eq rfl
  | _ => exact .of_eq rfl

theorem Deeds.grows (ha : h.Attended cfg) (hd : Deeds loud h h') : h.Grows h' := by
  induction hd with
  | refl => exact .refl
  | tail hd hone ih => exact ih.trans (hone.grows (ha.deeds hd))

theorem Routed.grows {d : Delivery} (hr : h.Routed cfg g d h') : h.Grows h' := by
  have key : ∀ {h₁ : Harness M} {rest : List Delivery} {x : Generation} (deadline : Option Nat),
      h.Serves g d rest x → h₁.generations = h.generations →
      h.Grows (h₁.served g rest deadline) := by
    intro h₁ rest x deadline hs hg k y hy
    by_cases hk : g = k
    · subst hk
      refine ⟨_, getElem?_changeGeneration (hg ▸ hy), .refl, fun hended => ?_⟩
      obtain ⟨d₀, hrouting⟩ := hs.routing
      obtain rfl := Option.some.inj (hs.found.symm.trans hy)
      rw [hrouting] at hended
      cases hended
    · refine ⟨y, ?_, .refl, id⟩
      rw [served, Harness.changeGeneration, List.getElem?_modify_ne _ _ hk, hg, hy]
  cases hr with
  | unclaimed rest x deadline hs => exact key deadline hs rfl
  | claimed rest x m before v behind hs _ _ _ => exact key none hs rfl

theorem Turn.grows (ha : h.Attended cfg) (hp : h.Paired) (ht : h.Turn cfg h') : h.Grows h' := by
  rcases ht with hd | ⟨g, d, h₁, hr, hd⟩
  · exact hd.grows ha
  · exact hr.grows.trans (hd.grows (ha.routed hp hr))

/-! Waiters keep their order. -/

/-- Waiters leave the list, and those of newly registered waits come last. As long as somebody
waits, the current generation stays the same. -/
structure Lists (h h' : Harness M) : Prop where
  enrolled : ∀ i, h.Enrolled i → h'.Enrolled i
  waiters : Renewed (fun v => h.Enrolled v.id) h.waiters h'.waiters
  current : ∀ v ∈ h'.waiters, h.Enrolled v.id → h'.current = h.current

theorem Lists.of_sublist (hw : ∀ i, h.Enrolled i → h'.Enrolled i)
    (hs : h'.waiters.Sublist h.waiters) (hc : h'.waiters ≠ [] → h'.current = h.current) :
    h.Lists h' where
  enrolled := hw
  waiters := .of_sublist hs
  current := fun _ hv _ => hc (List.ne_nil_of_mem hv)

theorem Lists.of_eq (hw : h'.waits = h.waits) (hs : h'.waiters = h.waiters)
    (hc : h'.current = h.current) : h.Lists h' := by
  refine .of_sublist (fun i hi => ?_) (hs ▸ .refl _) fun _ => hc
  rw [Enrolled, hw]
  exact hi

theorem Lists.refl : h.Lists h := .of_eq rfl rfl rfl

theorem Lists.trans (hd : h.Lists h') (hd' : h'.Lists h'') : h.Lists h'' where
  enrolled := fun i hi => hd'.enrolled i (hd.enrolled i hi)
  waiters := hd.waiters.trans hd'.waiters fun v hv => hd.enrolled v.id hv
  current := fun v hv hi => by
    have hi' := hd.enrolled v.id hi
    rw [hd'.current v hv hi', hd.current v (hd'.waiters.mem hv hi') hi]

theorem enrolled_of_modify {f : Wait M → Wait M} {k : Nat}
    (hf : ∀ w, h.waits[k]? = some w → w.stage ≠ .calling → (f w).stage ≠ .calling)
    (hw : h'.waits = h.waits.modify k f) (hi : h.Enrolled i) : h'.Enrolled i := by
  obtain ⟨w, hwi, hs⟩ := hi
  by_cases hk : k = i
  · subst hk
    refine ⟨f w, ?_, hf w hwi hs⟩
    rw [hw, List.getElem?_modify_eq, hwi]
    rfl
  · refine ⟨w, ?_, hs⟩
    rw [hw, List.getElem?_modify_ne _ _ hk, hwi]

/-- A wait gets to another stage, and its waiter may leave. -/
theorem Lists.enterWait {stage : WaitStage M} {k : Nat} (hs : stage ≠ .calling)
    (hw : h'.waits = (h.enterWait k stage).waits) (hv : h'.waiters.Sublist h.waiters)
    (hc : h'.current = h.current) : h.Lists h' :=
  .of_sublist (fun _ => enrolled_of_modify (fun _ _ _ => hs) hw) hv fun _ => hc

/-- A waiter joins the others. -/
theorem Lists.enlist {stage : WaitStage M} {w : Wait M} {k : Nat} (hw : h.waits[k]? = some w)
    (hcalling : w.stage = .calling) (hs : stage ≠ .calling)
    (hwaits : h'.waits = (h.enterWait k stage).waits)
    (hv : h'.waiters = h.waiters ++ [w.waiter k])
    (hc : h.waiters ≠ [] → h'.current = h.current) : h.Lists h' := by
  have hnot : ¬ h.Enrolled k := by
    rintro ⟨w', hw', hs'⟩
    obtain rfl := Option.some.inj (hw.symm.trans hw')
    exact hs' hcalling
  refine ⟨fun _ => enrolled_of_modify (fun _ _ _ => hs) hwaits,
    ⟨h.waiters, [w.waiter k], hv, .refl _, fun v hmem => ?_⟩, fun v hmem hi => ?_⟩
  · rw [List.mem_singleton.1 hmem]
    exact hnot
  · rw [hv, List.mem_append, List.mem_singleton] at hmem
    rcases hmem with hmem | rfl
    · exact hc (List.ne_nil_of_mem hmem)
    · exact (hnot hi).elim

theorem enrolled_resolveAll {waiters : List (Waiter M)} {error : Waiter M → HarnessError}
    (hw : h'.waits = resolveAll h.waits waiters error) (hi : h.Enrolled i) : h'.Enrolled i := by
  obtain ⟨w, hwi, hs⟩ := hi
  have hresolved := @resolveAll_eq M i h.waits waiters error
  rw [hwi] at hresolved
  refine ⟨_, hw ▸ hresolved, ?_⟩
  split <;> exact hs

theorem Deed.lists (hd : Deed loud h h') : h.Lists h' := by
  cases hd with
  | quiet hs =>
    simp only [scene, Prod.mk.injEq] at hs
    exact .of_eq hs.1 hs.2.1 hs.2.2.2.2.2.2.2.1
  | cleared error _ =>
    exact .of_sublist (fun _ => enrolled_resolveAll rfl) (List.nil_sublist _) fun hne => (hne rfl).elim
  | ended e current hnone _ =>
    exact .of_sublist (fun _ hi => hi) (.refl _) fun hne => (hne hnone).elim
  | called w _ _ =>
    refine .of_sublist (fun i hi => ?_) (.refl _) fun _ => rfl
    obtain ⟨w, hw, hs⟩ := hi
    refine ⟨w, ?_, hs⟩
    exact (List.getElem?_append_left (List.getElem?_eq_some_iff.1 hw).1).trans hw
  | joined i w g _ hw hs _ => exact .enlist hw hs (by simp) rfl rfl fun _ => rfl
  | created i w _ hnone hw hs =>
    exact .enlist hw hs (by simp) rfl rfl fun hne => (hne hnone).elim
  | turnedAway i w e _ _ _ => exact .enterWait (by simp) rfl List.eraseP_sublist rfl
  | accepted i w g _ _ _ => exact .enterWait (by simp) rfl (.refl _) rfl
  | awaits i w stage _ hs =>
    refine .enterWait ?_ rfl (.refl _) rfl
    rcases hs with ⟨_, rfl⟩ | ⟨_, _, rfl⟩ <;> simp
  | overdue i w deadline _ _ _ => exact .enterWait (by simp) rfl (.refl _) rfl
  | finished i w outcome _ _ _ => exact .enterWait (by simp) rfl (.refl _) rfl
  | expired i w deadline e _ _ _ _ => exact .enterWait (by simp) rfl List.eraseP_sublist rfl
  | left i w _ _ => exact .enterWait (by simp) rfl List.eraseP_sublist rfl
  | brokeOff c x _ _ _ =>
    refine .of_sublist (fun _ => enrolled_of_modify (k := x.wait) (f := fun w => { w with
      outcome := w.outcome.resolve (.error .cancelled) }) (fun _ _ hs => hs) rfl) (.refl _)
      fun _ => rfl
  | answered c x result outcome broker ledger _ _ _ _ _ =>
    refine .of_sublist (fun _ => enrolled_of_modify (k := x.wait) (f := fun w => { w with
      outcome := w.outcome.resolve outcome }) (fun _ _ hs => hs) rfl) (.refl _) fun _ => rfl
  | began c x actions _ _ =>
    obtain ⟨notes, heq, _⟩ := act_eq (h.noteCall (.began x.tag x.message)) c x actions
    rw [heq]
    exact .of_eq rfl rfl rfl
  | resumed c x actions _ _ =>
    obtain ⟨notes, heq, _⟩ := act_eq h c x actions
    rw [heq]
    exact .of_eq rfl rfl rfl
  | _ => exact .of_eq rfl rfl rfl

theorem Deeds.lists (hd : Deeds loud h h') : h.Lists h' := by
  induction hd with
  | refl => exact .refl
  | tail _ hone ih => exact ih.trans hone.lists

/-! The books are left alone. -/

/-- The books, the deliveries and the claims are left as they are. -/
structure Tidy (h h' : Harness M) : Prop where
  books : h'.books = h.books
  subjects : h'.subjects = h.subjects
  inbound : ∀ g, h'.inbound g = h.inbound g
  completed : ∀ g, h'.Completed g ↔ h.Completed g

/-- Nothing was asked of the channel, unless it was released as the harness ended. -/
structure Silent (h h' : Harness M) : Prop where
  unfailed : h'.failure = none → h.failure = none ∧ h'.broker.account = h.broker.account
  log : ∃ tail, h'.broker.operations = h.broker.operations ++ tail ∧ ∀ op ∈ tail, op = .dispose

theorem Tidy.ledger (ht : h.Tidy h') : h'.ledger = h.ledger := congrArg (·.1) ht.books

theorem Tidy.lastTag (ht : h.Tidy h') : h'.broker.lastTag = h.broker.lastTag :=
  congrArg (·.2.1) ht.books

theorem Tidy.tags (ht : h.Tidy h') : h'.broker.tags = h.broker.tags :=
  congrArg (·.2.2.1.map (·.1)) ht.books

theorem Tidy.acked (ht : h.Tidy h') : h'.broker.acked = h.broker.acked :=
  congrArg (·.2.2.2.1) ht.books

theorem Tidy.nacked (ht : h.Tidy h') : h'.broker.nacked = h.broker.nacked :=
  congrArg (·.2.2.2.2) ht.books

theorem Tidy.refl : h.Tidy h := ⟨rfl, rfl, fun _ => rfl, fun _ => Iff.rfl⟩

theorem Tidy.trans (hd : h.Tidy h') (hd' : h'.Tidy h'') : h.Tidy h'' :=
  ⟨hd'.books.trans hd.books, hd'.subjects.trans hd.subjects,
    fun g => (hd'.inbound g).trans (hd.inbound g),
    fun g => (hd'.completed g).trans (hd.completed g)⟩

theorem Silent.of_eq (hb : h'.broker.account = h.broker.account) (hf : h'.failure = h.failure) :
    h.Silent h' := by
  refine ⟨fun hnone => ⟨hf ▸ hnone, hb⟩, [], ?_, nofun⟩
  simp only [Broker.account, Prod.mk.injEq] at hb
  rw [List.append_nil]
  exact hb.2.2.2.2.2.1

theorem Silent.refl : h.Silent h := .of_eq rfl rfl

theorem Silent.trans (hd : h.Silent h') (hd' : h'.Silent h'') : h.Silent h'' := by
  obtain ⟨tail, hlog, htail⟩ := hd.log
  obtain ⟨tail', hlog', htail'⟩ := hd'.log
  refine ⟨fun hnone => ?_, tail ++ tail', ?_, fun op hop => ?_⟩
  · obtain ⟨hf', hb'⟩ := hd'.unfailed hnone
    obtain ⟨hf, hb⟩ := hd.unfailed hf'
    exact ⟨hf, hb'.trans hb⟩
  · rw [hlog', hlog, List.append_assoc]
  · exact (List.mem_append.1 hop).elim (htail op) (htail' op)

theorem Tidy.of_generations (hg : h'.generations = h.generations) (hb : h'.books = h.books)
    (hs : h'.subjects = h.subjects) : h.Tidy h' := by
  refine ⟨hb, hs, fun g => ?_, fun g => ?_⟩
  · simp only [Harness.inbound, hg]
  · rw [Completed, life, hg, Completed, life]

theorem Tidy.changeGeneration {φ : Generation → Generation}
    (hφ : ∀ x, h.generations[g]? = some x → x.Advance False (φ x)) :
    h.Tidy (h.changeGeneration g φ) := by
  refine ⟨rfl, rfl, fun k => ?_, fun k => ?_⟩
  · simp only [Harness.inbound, Harness.changeGeneration, List.getElem?_modify]
    cases hx : h.generations[k]? with
    | none => rfl
    | some x =>
      by_cases hk : g = k
      · subst hk
        simpa using (hφ x hx).inbound
      · simp [hk]
  · refine ⟨fun hc => ?_, (Grows.changeGeneration fun x hx => (hφ x hx).toForward).completed⟩
    cases hx : h.generations[k]? with
    | none =>
      rw [Completed, life, Harness.changeGeneration, List.getElem?_modify, hx] at hc
      cases hc
    | some x =>
      rw [Completed, life_of_some (lives_of_some hx)]
      by_cases hk : g = k
      · subst hk
        rw [Completed, life_of_some (lives_of_some (getElem?_changeGeneration hx))] at hc
        exact (hφ x hx).quiet.elim False.elim fun hquiet => hquiet hc
      · rw [Completed, life, Harness.changeGeneration, List.getElem?_modify_ne _ _ hk, hx] at hc
        exact hc

theorem Tidy.append {x : Generation} (hg : h'.generations = h.generations ++ [x])
    (hlife : x.life = {}) (hin : x.inbound = []) (hb : h'.books = h.books)
    (hs : h'.subjects = h.subjects) : h.Tidy h' := by
  refine ⟨hb, hs, fun k => ?_, fun k => ⟨fun hc => ?_, (Grows.append hg).completed⟩⟩
  · cases hy : h.generations[k]? with
    | some y => rw [inbound_of_some hy, inbound_of_some (hg ▸ (List.getElem?_append_left
        (List.getElem?_eq_some_iff.1 hy).1).trans hy)]
    | none =>
      simp only [Harness.inbound, hy]
      cases hz : h'.generations[k]? with
      | none => rfl
      | some z =>
        rcases generation_of_append (hg ▸ hz) with hz | ⟨_, rfl⟩
        · rw [hy] at hz
          cases hz
        · exact hin
  · cases hz : h'.generations[k]? with
    | none =>
      rw [Completed, life, hz] at hc
      cases hc
    | some z =>
      rw [Completed, life_of_some (lives_of_some hz)] at hc
      rcases generation_of_append (hg ▸ hz) with hy | ⟨_, rfl⟩
      · rw [Completed, life_of_some (lives_of_some hy)]
        exact hc
      · rw [hlife] at hc
        cases hc

/-- A claim goes on, and stays open. -/
theorem Tidy.restage {c : Nat} {x : Claim M} {stage : ClaimStage} (hx : h.claims[c]? = some x)
    (hopen : x.stage.isOpen = true) (hopen' : stage.isOpen = true)
    (hc : h'.claims = Intercept.restage h.claims c stage) (hg : h'.generations = h.generations)
    (hb : h'.books = h.books) : h.Tidy h' := by
  refine .of_generations hg hb ?_
  rw [Harness.subjects, hc]
  exact restage_subject hx (hopen'.trans hopen.symm)

theorem Tidy.act {c : Nat} {x : Claim M} {actions : List Action} (notes : List (CallNote M))
    (hx : h.claims[c]? = some x) (hopen : x.stage.isOpen = true) :
    h.Tidy (Harness.act { h with calls := h.calls ++ notes } c x actions) ∧
      h.Silent (Harness.act { h with calls := h.calls ++ notes } c x actions) := by
  obtain ⟨ended, heq, _⟩ := act_eq { h with calls := h.calls ++ notes } c x actions
  rw [heq]
  exact ⟨.restage hx hopen rfl rfl rfl rfl, .of_eq rfl rfl⟩

/-- A deed that is not loud leaves the books alone. -/
theorem Deed.tidy (ha : h.Attended cfg) (hd : Deed False h h') : h.Tidy h' ∧ h.Silent h' := by
  cases hd with
  | quiet hs =>
    simp only [scene, Prod.mk.injEq] at hs
    obtain ⟨_, _, hclaims, _, _, _, hg, _, hf, hl, hb⟩ := hs
    refine ⟨.of_generations hg ?_ (by rw [subjects, hclaims, subjects]), .of_eq hb hf⟩
    simp only [Broker.account, Prod.mk.injEq] at hb
    simp [books, hl, hb]
  | booked _ _ hloud _ | received _ _ hloud => exact hloud.elim
  | answered _ _ _ _ _ _ hloud _ _ _ _ => exact hloud.elim
  | moved g φ hφ => exact ⟨.changeGeneration hφ, .of_eq rfl rfl⟩
  | ended e current _ _ =>
    have hs := Broker.still_dispose (b := h.broker)
    refine ⟨.of_generations rfl ?_ rfl, by simp, ?_⟩
    · simp [books, hs.lastTag, hs.unsettled, hs.acked, hs.nacked]
    · change ∃ tail, h.broker.dispose.operations = _ ∧ _
      rw [Broker.dispose]
      split
      · exact ⟨[], (List.append_nil _).symm, by simp⟩
      · exact ⟨[.dispose], rfl, fun _ => List.mem_singleton.1⟩
  | created i w _ _ _ _ =>
    exact ⟨.append (x := { stage := .created h.current }) rfl rfl rfl rfl rfl, .of_eq rfl rfl⟩
  | queued c x hx hs => exact ⟨.restage hx (by rw [hs]; rfl) rfl rfl rfl rfl, .of_eq rfl rfl⟩
  | granted c rest hqueue =>
    obtain ⟨x, hx, hs, _⟩ := (hqueue ▸ ha.queue : Queued h.claims (c :: rest)).pop
    exact ⟨.restage hx (by rw [hs]; rfl) rfl rfl rfl rfl, .of_eq rfl rfl⟩
  | launched c x _ hx hs _ | brokeOff c x hx hs _ =>
    have hopen : x.stage.isOpen = true := by rcases hs with hs | hs <;> rw [hs] <;> rfl
    exact ⟨.restage hx hopen rfl rfl rfl rfl, .of_eq rfl rfl⟩
  | began c x actions hx hs => exact Tidy.act [_] hx (by rw [hs]; rfl)
  | resumed c x actions hx hs =>
    have hopen : x.stage.isOpen = true := by
      rcases hs with ⟨_, hs⟩ | ⟨_, hs⟩ <;> rw [hs] <;> rfl
    have htidy := @Tidy.act M h c x actions [] hx hopen
    rw [List.append_nil] at htidy
    exact htidy
  | _ => exact ⟨.of_generations rfl rfl rfl, .of_eq rfl rfl⟩

theorem Deeds.tidy (ha : h.Attended cfg) (hd : Deeds False h h') :
    h.Tidy h' ∧ h.Silent h' := by
  induction hd with
  | refl => exact ⟨.refl, .refl⟩
  | tail hd hone ih =>
    obtain ⟨htidy, hsilent⟩ := hone.tidy (ha.deeds hd)
    exact ⟨ih.1.trans htidy, ih.2.trans hsilent⟩

end Harness
end Intercept
