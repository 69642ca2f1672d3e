import Intercept.Proofs.Harness.Books

/-! The generations of a harness stand in line: each subscribes only after the one before it has
handed its messages back. -/
namespace Intercept
variable {M : Type} {b b' : Broker Nat} {l l' : Ledger} {claims claims' : List (Claim M)}
  {gens : List Generation} {x : Generation} {f g : Nat}

/-- Whether a consumer with this stage has not subscribed yet. -/
def Stage.isOpening : Stage → Bool
  | created _ | waiting .. | subscribing .. => true
  | _ => false

/-- The generations before the front are over, and those behind it have not begun. -/
structure Lineup (gens : List Generation) (f : Nat) : Prop where
  le : f ≤ gens.length
  past : ∀ g x, gens[g]? = some x → g < f → x.stage = .ended ∧ x.life.state = .complete
  ahead : ∀ g x, gens[g]? = some x → f ≤ g →
    x.life.fullyStopped = .pending ∧ x.life.state ≠ .complete
  behind : ∀ g x, gens[g]? = some x → f < g →
    x.inbound = [] ∧ (x.stage = .created (some (g - 1)) ∨ ∃ d, x.stage = .waiting (g - 1) d)

theorem lineup_initial : Lineup [] 0 := by
  refine ⟨Nat.le_refl _, ?_, ?_, ?_⟩
  all_goals
    intro g x hx
    cases hx

/-- Only the front has work to do that does not wait for the generation before it. -/
theorem Lineup.eq_front (h : Lineup gens f) (hx : gens[g]? = some x) (he : x.stage ≠ .ended)
    (hc : x.stage ≠ .created (some (g - 1))) (hw : ∀ d, x.stage ≠ .waiting (g - 1) d) : g = f := by
  apply Classical.byContradiction
  intro hne
  rcases Nat.lt_or_gt_of_ne hne with hlt | hgt
  · exact he (h.past g x hx hlt).1
  · rcases (h.behind g x hx hgt).2 with hs | ⟨d, hs⟩
    · exact hc hs
    · exact hw d hs

/-- A change of the front's own stage and deliveries. -/
theorem Lineup.modify_front {φ : Generation → Generation} (h : Lineup gens f)
    (hφ : ∀ x, (φ x).life = x.life) : Lineup (gens.modify f φ) f := by
  refine ⟨?_, ?_, ?_, ?_⟩
  · rw [List.length_modify]
    exact h.le
  · intro g x hx hlt
    rcases getElem?_modify_some hx with ⟨_, hx⟩ | ⟨rfl, _⟩
    · exact h.past g x hx hlt
    · exact (Nat.lt_irrefl _ hlt).elim
  · intro g x hx hle
    rcases getElem?_modify_some hx with ⟨_, hx⟩ | ⟨rfl, y, hy, rfl⟩
    · exact h.ahead g x hx hle
    · rw [hφ]
      exact h.ahead f y hy hle
  · intro g x hx hlt
    rcases getElem?_modify_some hx with ⟨_, hx⟩ | ⟨rfl, _⟩
    · exact h.behind g x hx hlt
    · exact (Nat.lt_irrefl _ hlt).elim

/-- A generation behind the front begins to wait for the one before it. -/
theorem Lineup.enter_waiting {deadline : Nat} (h : Lineup gens f) (hlt : f < g) :
    Lineup (gens.modify g fun x => { x with stage := .waiting (g - 1) deadline }) f := by
  refine ⟨?_, ?_, ?_, ?_⟩
  · rw [List.length_modify]
    exact h.le
  · intro k x hx hk
    rcases getElem?_modify_some hx with ⟨_, hx⟩ | ⟨rfl, _⟩
    · exact h.past k x hx hk
    · omega
  · intro k x hx hle
    rcases getElem?_modify_some hx with ⟨_, hx⟩ | ⟨rfl, y, hy, rfl⟩
    · exact h.ahead k x hx hle
    · exact h.ahead g y hy hle
  · intro k x hx hk
    rcases getElem?_modify_some hx with ⟨_, hx⟩ | ⟨rfl, y, hy, rfl⟩
    · exact h.behind k x hx hk
    · exact ⟨(h.behind g y hy hk).1, .inr ⟨deadline, rfl⟩⟩

/-- What a start and a stop do to a life: it is neither completed nor signalled, and what has
stopped does not start again. -/
structure Lifecycle.Steady (φ : Lifecycle → Lifecycle) : Prop where
  fullyStopped : ∀ l, (φ l).fullyStopped = l.fullyStopped
  complete : ∀ l, (φ l).state = .complete ↔ l.state = .complete
  stopped : ∀ l, l.state = .stopped → (φ l).state = .stopped

theorem Lifecycle.steady_stop : Steady (·.stop) where
  fullyStopped := fun l => by
    obtain ⟨state, stopRequested, started, fullyStopped⟩ := l
    cases state <;> rfl
  complete := fun l => by
    obtain ⟨state, stopRequested, started, fullyStopped⟩ := l
    cases state <;> simp [stop, GenerationState.on]
  stopped := fun l hl => by rw [stop, hl]; exact hl

theorem Lifecycle.steady_setStarted : Steady (·.setStarted) where
  fullyStopped := fun l => by
    obtain ⟨state, stopRequested, started, fullyStopped⟩ := l
    cases state <;> rfl
  complete := fun l => by
    obtain ⟨state, stopRequested, started, fullyStopped⟩ := l
    cases state <;> simp [setStarted, GenerationState.on]
  stopped := fun l hl => by rw [setStarted, hl]; exact hl

theorem Lineup.changeLife {φ : Lifecycle → Lifecycle} (h : Lineup gens f)
    (hφ : Lifecycle.Steady φ) :
    Lineup (gens.modify g fun x => { x with life := φ x.life }) f := by
  have key : ∀ (k : Nat) (x : Generation),
      (gens.modify g fun x => { x with life := φ x.life })[k]? = some x →
      ∃ y : Generation, gens[k]? = some y ∧ x.stage = y.stage ∧ x.inbound = y.inbound ∧
        x.life.fullyStopped = y.life.fullyStopped ∧
        (x.life.state = .complete ↔ y.life.state = .complete) := by
    intro k x hx
    rcases getElem?_modify_some hx with ⟨_, hx⟩ | ⟨rfl, y, hy, rfl⟩
    · exact ⟨x, hx, rfl, rfl, rfl, Iff.rfl⟩
    · exact ⟨y, hy, rfl, rfl, hφ.fullyStopped _, hφ.complete _⟩
  refine ⟨?_, ?_, ?_, ?_⟩
  · rw [List.length_modify]
    exact h.le
  · intro k x hx hlt
    obtain ⟨y, hy, hstage, _, _, hstate⟩ := key k x hx
    rw [hstage, hstate]
    exact h.past k y hy hlt
  · intro k x hx hle
    obtain ⟨y, hy, _, _, hfull, hstate⟩ := key k x hx
    rw [hfull, ne_eq, hstate]
    exact h.ahead k y hy hle
  · intro k x hx hlt
    obtain ⟨y, hy, hstage, hin, _, _⟩ := key k x hx
    rw [hstage, hin]
    exact h.behind k y hy hlt

/-- A new generation comes last. -/
theorem Lineup.append (h : Lineup gens f) (hlife : x.life = {}) (hin : x.inbound = [])
    (hstage : f < gens.length → x.stage = .created (some (gens.length - 1))) :
    Lineup (gens ++ [x]) f := by
  have key : ∀ (k : Nat) (y : Generation), (gens ++ [x])[k]? = some y →
      gens[k]? = some y ∨ k = gens.length ∧ y = x := by
    intro k y hy
    rw [List.getElem?_append] at hy
    split at hy
    · exact .inl hy
    · obtain ⟨hlt, heq⟩ := List.getElem?_eq_some_iff.1 hy
      rw [List.length_singleton] at hlt
      have hk : k = gens.length := by omega
      subst hk
      simp only [Nat.sub_self, List.getElem_cons_zero] at heq
      exact .inr ⟨rfl, heq.symm⟩
  have hle := h.le
  refine ⟨?_, ?_, ?_, ?_⟩
  · rw [List.length_append]
    omega
  · intro k y hy hlt
    rcases key k y hy with hy | ⟨rfl, rfl⟩
    · exact h.past k y hy hlt
    · omega
  · intro k y hy hle
    rcases key k y hy with hy | ⟨rfl, rfl⟩
    · exact h.ahead k y hy hle
    · rw [hlife]
      exact ⟨rfl, by simp⟩
  · intro k y hy hlt
    rcases key k y hy with hy | ⟨rfl, rfl⟩
    · exact h.behind k y hy hlt
    · exact ⟨hin, .inl (hstage hlt)⟩

/-- The front has handed its messages back. -/
theorem Lineup.advance {life : Lifecycle} (h : Lineup gens f) (hx : gens[f]? = some x)
    (hs : x.stage = .ended) (hl : life.state = .complete) :
    Lineup (gens.modify f fun x => { x with life }) (f + 1) := by
  have hlt := (List.getElem?_eq_some_iff.1 hx).1
  refine ⟨?_, ?_, ?_, ?_⟩
  · rw [List.length_modify]
    omega
  · intro k y hy hk
    rcases getElem?_modify_some hy with ⟨hne, hy⟩ | ⟨rfl, z, hz, rfl⟩
    · exact h.past k y hy (by omega)
    · rw [hx] at hz
      cases hz
      exact ⟨hs, hl⟩
  · intro k y hy hk
    rcases getElem?_modify_some hy with ⟨_, hy⟩ | ⟨rfl, _⟩
    · exact h.ahead k y hy (by omega)
    · omega
  · intro k y hy hk
    rcases getElem?_modify_some hy with ⟨_, hy⟩ | ⟨rfl, _⟩
    · exact h.behind k y hy (by omega)
    · omega

/-! The front. -/

/-- Deliveries that no claim is on, and that no teardown has passed over. -/
structure Fresh (l : Ledger) (claims : List (Claim M)) (inbound : List Delivery) : Prop where
  distinct : (inbound.map (·.tag)).Nodup
  unclaimed : ∀ d ∈ inbound, l.previouslyNackedThrough < d.tag ∧ d.tag ≤ l.lastObserved ∧
    d.tag ∉ claimTags claims

theorem fresh_nil : Fresh l claims [] := ⟨List.nodup_nil, nofun⟩

theorem Fresh.tail {d : Delivery} {rest : List Delivery} (h : Fresh l claims (d :: rest)) :
    Fresh l claims rest :=
  ⟨(List.nodup_cons.1 h.distinct).2, fun e he => h.unclaimed e (List.mem_cons_of_mem d he)⟩

/-- A claim on the first delivery leaves the others fresh. -/
theorem Fresh.claim {d : Delivery} {rest : List Delivery} {x : Claim M}
    (h : Fresh l claims (d :: rest)) (hx : x.tag = d.tag) :
    Fresh (l.startProcessing d.tag) (claims ++ [x]) rest := by
  obtain ⟨hd, hrest⟩ := List.nodup_cons.1 h.distinct
  refine ⟨hrest, fun e he => ?_⟩
  obtain ⟨hlt, hle, hfree⟩ := h.unclaimed e (List.mem_cons_of_mem d he)
  refine ⟨hlt, hle, fun hmem => ?_⟩
  rw [claimTags, List.map_append, List.mem_append] at hmem
  rcases hmem with hmem | hmem
  · exact hfree hmem
  · have htag : e.tag = d.tag := (List.mem_singleton.1 hmem).trans hx
    exact hd (List.mem_map.2 ⟨e, he, htag⟩)

theorem Fresh.receive {inbound : List Delivery} {body : Body} (h : Fresh l claims inbound)
    (hprev : l.previouslyNackedThrough ≤ l.lastObserved)
    (hc : ∀ t ∈ claimTags claims, t ≤ l.lastObserved) :
    Fresh (l.observe (l.lastObserved + 1)) claims (inbound ++ [⟨l.lastObserved + 1, body⟩]) := by
  have hobserved : (l.observe (l.lastObserved + 1)).lastObserved = l.lastObserved + 1 := by
    simp [Ledger.observe]
  refine ⟨?_, ?_⟩
  · rw [List.map_append]
    refine h.distinct.append (List.nodup_singleton _) ?_
    intro t ht hnew
    obtain ⟨d, hd, rfl⟩ := List.mem_map.1 ht
    have hle := (h.unclaimed d hd).2.1
    have heq : d.tag = l.lastObserved + 1 := List.mem_singleton.1 hnew
    omega
  · intro d hd
    rw [hobserved]
    rcases List.mem_append.1 hd with hd | hd
    · obtain ⟨hlt, hle, hfree⟩ := h.unclaimed d hd
      exact ⟨hlt, by omega, hfree⟩
    · rw [List.mem_singleton.1 hd]
      refine ⟨?_, Nat.le_refl _, fun hmem => ?_⟩
      · change l.previouslyNackedThrough < l.lastObserved + 1
        omega
      · have hle : l.lastObserved + 1 ≤ l.lastObserved := hc _ hmem
        omega

/-- Where the front stands, and what that means for the broker and for the ledger. -/
inductive Front (b : Broker Nat) (l : Ledger) (claims : List (Claim M)) (gens : List Generation)
    (f : Nat) : Prop
  /-- All generations are over. -/
  | rest : f = gens.length → b.consumers = [] → b.held = [] →
    l.previouslyNackedThrough = l.lastObserved → (∀ t, t ∉ l.shouldNack) → Front b l claims gens f
  | opening (x : Generation) : gens[f]? = some x → x.stage.isOpening = true → x.inbound = [] →
    b.consumers = [] → b.held = [] → l.previouslyNackedThrough = l.lastObserved →
    Front b l claims gens f
  | routing (x : Generation) (c : Consumer Nat) (deadline : Option Nat) : gens[f]? = some x →
    x.stage = .routing deadline → b.consumers = [c] → c.tag = x.consumer → c.sink = f →
    b.held = [] → Fresh l claims x.inbound → Front b l claims gens f
  /-- It has left, and the confirmation of its cancel is held back. -/
  | closing (x : Generation) (c : Consumer Nat) : gens[f]? = some x → x.stage = .ended →
    x.life.state = .stopped → b.consumers = [] → b.held = [c] → c.sink = f →
    Front b l claims gens f

theorem Front.congr (h : Front b l claims gens f) (hc : b'.consumers = b.consumers)
    (hh : b'.held = b.held) (hprev : l'.previouslyNackedThrough = l.previouslyNackedThrough)
    (hlast : l'.lastObserved = l.lastObserved) (htags : claimTags claims' = claimTags claims)
    (hs : f = gens.length → (∀ t, t ∉ l.shouldNack) → ∀ t, t ∉ l'.shouldNack) :
    Front b' l' claims' gens f := by
  cases h with
  | rest hf hbc hbh hle hnone =>
    exact .rest hf (hc.trans hbc) (hh.trans hbh) (by rw [hprev, hlast, hle]) (hs hf hnone)
  | opening x hx hst hin hbc hbh hle =>
    exact .opening x hx hst hin (hc.trans hbc) (hh.trans hbh) (by rw [hprev, hlast, hle])
  | routing x c deadline hx hst hbc htag hsink hbh hfresh =>
    refine .routing x c deadline hx hst (hc.trans hbc) htag hsink (hh.trans hbh)
      ⟨hfresh.distinct, ?_⟩
    rw [hprev, hlast, htags]
    exact hfresh.unclaimed
  | closing x c hx hst hstop hbc hbh hsink =>
    exact .closing x c hx hst hstop (hc.trans hbc) (hh.trans hbh) hsink

/-- The front stands where it was if another generation changes. -/
theorem Front.modify_other {φ : Generation → Generation} (h : Front b l claims gens f)
    (hne : g ≠ f) : Front b l claims (gens.modify g φ) f := by
  have hf : (gens.modify g φ)[f]? = gens[f]? := List.getElem?_modify_ne _ _ hne
  cases h with
  | rest hf hbc hbh hle hnone =>
    exact .rest (hf.trans (List.length_modify _ _ _).symm) hbc hbh hle hnone
  | opening x hx hst hin hbc hbh hle => exact .opening x (hf.trans hx) hst hin hbc hbh hle
  | routing x c deadline hx hst hbc htag hsink hbh hfresh =>
    exact .routing x c deadline (hf.trans hx) hst hbc htag hsink hbh hfresh
  | closing x c hx hst hstop hbc hbh hsink =>
    exact .closing x c (hf.trans hx) hst hstop hbc hbh hsink

theorem Front.changeLife {φ : Lifecycle → Lifecycle} (h : Front b l claims gens f)
    (hφ : Lifecycle.Steady φ) :
    Front b l claims (gens.modify g fun x => { x with life := φ x.life }) f := by
  by_cases hg : g = f
  · subst hg
    have key : ∀ x, gens[g]? = some x →
        (gens.modify g fun x => { x with life := φ x.life })[g]? =
          some { x with life := φ x.life } := by
      intro x hx
      rw [List.getElem?_modify_eq, hx]
      rfl
    cases h with
    | rest hf hbc hbh hle hnone =>
      exact .rest (hf.trans (List.length_modify _ _ _).symm) hbc hbh hle hnone
    | opening x hx hst hin hbc hbh hle => exact .opening _ (key x hx) hst hin hbc hbh hle
    | routing x c deadline hx hst hbc htag hsink hbh hfresh =>
      exact .routing _ c deadline (key x hx) hst hbc htag hsink hbh hfresh
    | closing x c hx hst hstop hbc hbh hsink =>
      exact .closing _ c (key x hx) hst (hφ.stopped _ hstop) hbc hbh hsink
  · exact h.modify_other hg

/-- A new generation that comes last may be the front. -/
theorem Front.append (h : Front b l claims gens f) (hst : x.stage.isOpening = true)
    (hin : x.inbound = []) : Front b l claims (gens ++ [x]) f := by
  have key : ∀ y, gens[f]? = some y → (gens ++ [x])[f]? = some y := by
    intro y hy
    rw [List.getElem?_append_left (List.getElem?_eq_some_iff.1 hy).1, hy]
  cases h with
  | rest hf hbc hbh hle _ =>
    refine .opening x ?_ hst hin hbc hbh hle
    rw [hf, List.getElem?_append_right (Nat.le_refl _), Nat.sub_self]
    rfl
  | opening y hy hst hin hbc hbh hle => exact .opening y (key y hy) hst hin hbc hbh hle
  | routing y c deadline hy hst hbc htag hsink hbh hfresh =>
    exact .routing y c deadline (key y hy) hst hbc htag hsink hbh hfresh
  | closing y c hy hst hstop hbc hbh hsink =>
    exact .closing y c (key y hy) hst hstop hbc hbh hsink

theorem Front.of_opening (h : Front b l claims gens f) (hx : gens[f]? = some x)
    (hs : x.stage.isOpening = true) : x.inbound = [] ∧ b.consumers = [] ∧ b.held = [] ∧
      l.previouslyNackedThrough = l.lastObserved := by
  cases h with
  | rest hf _ _ _ _ =>
    have := (List.getElem?_eq_some_iff.1 hx).1
    omega
  | opening y hy _ hin hbc hbh hle =>
    rw [hx] at hy
    cases hy
    exact ⟨hin, hbc, hbh, hle⟩
  | routing y c deadline hy hst _ _ _ _ _ =>
    rw [hx] at hy
    cases hy
    rw [hst] at hs
    cases hs
  | closing y c hy hst _ _ _ _ =>
    rw [hx] at hy
    cases hy
    rw [hst] at hs
    cases hs

theorem Front.of_routing {deadline : Option Nat} (h : Front b l claims gens f)
    (hx : gens[f]? = some x) (hs : x.stage = .routing deadline) :
    ∃ c, b.consumers = [c] ∧ c.tag = x.consumer ∧ c.sink = f ∧ b.held = [] ∧
      Fresh l claims x.inbound := by
  cases h with
  | rest hf _ _ _ _ =>
    have := (List.getElem?_eq_some_iff.1 hx).1
    omega
  | opening y hy hst _ _ _ _ =>
    rw [hx] at hy
    cases hy
    rw [hs] at hst
    cases hst
  | routing y c _ hy _ hbc htag hsink hbh hfresh =>
    rw [hx] at hy
    cases hy
    exact ⟨c, hbc, htag, hsink, hbh, hfresh⟩
  | closing y c hy hst _ _ _ _ =>
    rw [hx] at hy
    cases hy
    rw [hs] at hst
    cases hst

end Intercept
