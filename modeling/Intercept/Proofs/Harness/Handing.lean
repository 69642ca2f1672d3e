import Intercept.Proofs.Harness.Deeds
import Intercept.Proofs.Harness.Upkeep
import Intercept.Proofs.Waiter.Offers

/-! A generation hands out a delivery, which leaves every wait attended to. -/
namespace Intercept
variable {M : Type}

/-- The claim that a waiter leaves with. -/
def Waiter.claim (v : Waiter M) (g : Nat) (d : Delivery) (m : M)
    (callback : Option (List Action)) : Claim M where
  tag := d.tag
  wait := v.id
  generation := g
  message := m
  callback := callback

/-- The waiters after they were offered a delivery that none of them took. -/
def Setup.seen (cfg : Setup M) (d : Delivery) (waiters : List (Waiter M)) : List (Waiter M) :=
  waiters.map fun v => v.see (cfg.format.decode? d.body) d.body

namespace Harness
variable {cfg : Setup M} {h h' : Harness M} {g i : Nat} {w : Wait M} {x : Generation}

/-- A generation has a delivery to hand out. -/
structure Serves (h : Harness M) (g : Nat) (d : Delivery) (rest : List Delivery) (x : Generation) :
    Prop where
  found : h.generations[g]? = some x
  routing : ∃ deadline, x.stage = .routing deadline
  going : x.life.stopRequested ≠ true
  inbound : x.inbound = d :: rest

/-- The delivery leaves the generation. -/
def served (h : Harness M) (g : Nat) (rest : List Delivery) (deadline : Option Nat) : Harness M :=
  h.changeGeneration g fun x => { x with inbound := rest, stage := .routing deadline }

/-- Nobody takes the delivery. -/
def passedOn (cfg : Setup M) (h : Harness M) (g : Nat) (d : Delivery) (rest : List Delivery)
    (deadline : Option Nat) : Harness M :=
  { h with waiters := cfg.seen d h.waiters }.served g rest deadline

/-- A waiter leaves with a claim on the delivery. Those before it have seen the delivery. -/
def taken (cfg : Setup M) (h : Harness M) (g : Nat) (d : Delivery) (rest : List Delivery) (m : M)
    (before : List (Waiter M)) (v : Waiter M) (behind : List (Waiter M)) : Harness M :=
  { h with
    waiters := cfg.seen d before ++ behind
    ledger := h.ledger.startProcessing d.tag
    claims := h.claims ++ [v.claim g d m (cfg.callback m h.claims.length)] }.served g rest none

/-- A delivery is handed out. -/
inductive Routed (cfg : Setup M) (h : Harness M) (g : Nat) (d : Delivery) : Harness M → Prop
  | unclaimed (rest : List Delivery) (x : Generation) (deadline : Option Nat) :
    h.Serves g d rest x → Routed cfg h g d (h.passedOn cfg g d rest deadline)
  | claimed (rest : List Delivery) (x : Generation) (m : M) (before : List (Waiter M))
    (v : Waiter M) (behind : List (Waiter M)) : h.Serves g d rest x →
    cfg.format.decode? d.body = some m → h.waiters = before ++ v :: behind →
    v.matchesMessage m = true → Routed cfg h g d (h.taken cfg g d rest m before v behind)

theorem Serves.current {d : Delivery} {rest : List Delivery} (hs : h.Serves g d rest x)
    (hp : h.Paired) : h.current = some g :=
  hp.current_of_routing hs.found hs.going

/-- Who hands out deliveries has started. -/
theorem Serves.started {d : Delivery} {rest : List Delivery} (hs : h.Serves g d rest x)
    (hp : h.Paired) (ho : h.Orderly) :
    x.life.state = .started ∧ (h.life g).started = .resolved (.ok ()) := by
  obtain ⟨deadline, hrouting⟩ := hs.routing
  have hobs := (hp.unfailed_of_routing hs.found hs.going).2
  have hopened := ho.opened g x deadline hs.found hrouting
  have hlife := lives_of_some hs.found
  have hstate : x.life.state = .started := by
    rcases GenerationState.isObserving_iff.1 hobs with hstate | hstate
    · exact (hopened hstate).elim
    · exact hstate
  refine ⟨hstate, ?_⟩
  rw [life_of_some hlife]
  exact (ho.signalled _ (List.mem_of_getElem? hlife)).started hstate

theorem filter_seen {d : Delivery} {waiters : List (Waiter M)} :
    (cfg.seen d waiters).filter (·.id == i) = cfg.seen d (waiters.filter (·.id == i)) := by
  rw [Setup.seen, List.filter_map, Setup.seen]
  congr 1
  exact List.filter_congr fun v _ => by simp

theorem Orderly.served {d : Delivery} {rest : List Delivery} {deadline : Option Nat}
    (ho : h.Orderly) (hs : h.Serves g d rest x) : (h.served g rest deadline).Orderly := by
  obtain ⟨d₀, hrouting⟩ := hs.routing
  refine ho.changeGeneration fun y hy => ?_
  obtain rfl := Option.some.inj (hs.found.symm.trans hy)
  refine ⟨.refl, fun he => ?_, fun _ _ => ho.opened g x d₀ hs.found hrouting, nofun, nofun,
    fun p hp => ?_⟩
  · rw [hrouting] at he
    cases he
  · rcases hp with hp | ⟨_, hp⟩ <;> cases hp

theorem started_served {rest : List Delivery} {deadline : Option Nat} {k : Nat}
    (hs : (h.life k).started = .resolved (.ok ())) :
    ((h.served g rest deadline).life k).started = .resolved (.ok ()) :=
  started_changeGeneration (fun _ _ => .refl) hs

/-- The place of a wait does not depend on what its waiter has seen. -/
theorem Place.see (hp : h.Place i w) (hn : Around h h') (hclaims : h'.claimsOf i = h.claimsOf i)
    (hwaiters : h.waitersOf i = [] → h'.waitersOf i = [])
    (hseen : ∀ v, h.waitersOf i = [v] → ∃ v', h'.waitersOf i = [v'] ∧ v'.predicate = v.predicate) :
    h'.Place i w := by
  cases hp with
  | calling hv hx ho hs => exact .calling (hwaiters hv) (hclaims.trans hx) ho hs
  | listed v k hv hx ho hpred hk hs =>
    obtain ⟨v', hv', hpred'⟩ := hseen v hv
    refine .listed v' k hv' (hclaims.trans hx) ho (hpred'.trans hpred) ?_ ?_
    · rw [hn.current (ne_nil_of_waitersOf hv), hk]
    · exact hs.imp_right fun hs => ⟨hs.1, hn.started k hs.2⟩
  | claimed y hv hy hb => exact .claimed y (hwaiters hv) (hclaims.trans hy) (hb.mono hn)
  | apart hv hx hcalling ho hrefused =>
    exact .apart (hwaiters hv) (hclaims.trans hx) hcalling ho hrefused

theorem Attended.passedOn {d : Delivery} {rest : List Delivery} {deadline : Option Nat}
    (ha : h.Attended cfg) (hs : h.Serves g d rest x) :
    (h.passedOn cfg g d rest deadline).Attended cfg := by
  have hn : Around h (h.passedOn cfg g d rest deadline) :=
    ⟨fun _ => rfl, fun _ => started_served (h := h), fun _ ht => ht, fun _ hn => hn⟩
  have hserved : (h.served g rest deadline).Orderly := ha.toOrderly.served hs
  have ho : (h.passedOn cfg g d rest deadline).Orderly := hserved.congr rfl rfl rfl
  have hview : ∀ j, (h.passedOn cfg g d rest deadline).waitersOf j = cfg.seen d (h.waitersOf j) :=
    fun j => filter_seen
  refine ha.change ho hn ha.queue ha.handled ha.begun fun j => ?_
  cases hw : h.waits[j]? with
  | none =>
    refine .inl ⟨rfl, ?_, rfl, rfl⟩
    rw [hview, (ha.nobody j hw).1]
    rfl
  | some w =>
    refine .inr ⟨w, hw, (ha.placed j w hw).see hn rfl ?_ fun v hv => ?_, ha.tells j w hw⟩
    · intro hv
      rw [hview, hv]
      rfl
    · refine ⟨v.see (cfg.format.decode? d.body) d.body, ?_, Waiter.see_predicate⟩
      rw [hview, hv]
      rfl

section
variable {d : Delivery} {rest : List Delivery} {m : M} {v : Waiter M}
  {before behind : List (Waiter M)} {j : Nat}

theorem waitersOf_taken : (h.taken cfg g d rest m before v behind).waitersOf j =
    cfg.seen d (before.filter (·.id == j)) ++ behind.filter (·.id == j) := by
  rw [← filter_seen]
  exact List.filter_append ..

theorem claimsOf_taken : (h.taken cfg g d rest m before v behind).claimsOf j =
    h.claimsOf j ++
      if v.id = j then [v.claim g d m (cfg.callback m h.claims.length)] else [] := by
  rw [claimsOf, taken, served, changeGeneration, List.filter_append, claimsOf]
  by_cases hj : v.id = j <;> simp [hj, Waiter.claim]

/-- A listed waiter is the only one of its wait. -/
theorem Attended.listed (ha : h.Attended cfg) (hsplit : h.waiters = before ++ v :: behind) :
    before.filter (·.id == v.id) = [] ∧ behind.filter (·.id == v.id) = [] ∧
      h.claimsOf v.id = [] ∧ ∃ w k, h.waits[v.id]? = some w ∧ w.outcome = .pending ∧
        v.predicate = w.predicate ∧ h.current = some k ∧
        (w.stage = .starting k ∨ w.stage.isAccepted = true) := by
  have hself : h.waitersOf v.id =
      before.filter (·.id == v.id) ++ v :: behind.filter (·.id == v.id) := by
    rw [waitersOf, hsplit, List.filter_append, List.filter_cons_of_pos (by simp)]
  have hne : h.waitersOf v.id ≠ [] := by simp [hself]
  cases hw : h.waits[v.id]? with
  | none => exact (hne (ha.nobody _ hw).1).elim
  | some w =>
    cases ha.placed _ w hw with
    | calling hv _ _ _ | claimed _ hv _ _ | apart hv _ _ _ _ => exact (hne hv).elim
    | listed u k hv hx hpending hpred hk hstage =>
      rw [hself, List.append_eq_singleton_iff] at hv
      obtain ⟨hbefore, hv⟩ | ⟨_, hv⟩ := hv
      · obtain ⟨rfl, hbehind⟩ := List.cons.inj hv
        exact ⟨hbefore, hbehind, hx, w, k, rfl, hpending, hpred, hk, hstage.imp_right (·.1)⟩
      · cases hv

theorem waitersOf_split (hsplit : h.waiters = before ++ v :: behind) (hj : v.id ≠ j) :
    h.waitersOf j = before.filter (·.id == j) ++ behind.filter (·.id == j) := by
  rw [waitersOf, hsplit, List.filter_append, List.filter_cons_of_neg (by simpa using hj)]

theorem waitersOf_taken_nil (hsplit : h.waiters = before ++ v :: behind) (hj : v.id ≠ j)
    (hv : h.waitersOf j = []) : (h.taken cfg g d rest m before v behind).waitersOf j = [] := by
  rw [waitersOf_split hsplit hj, List.append_eq_nil_iff] at hv
  rw [waitersOf_taken, hv.1, hv.2]
  rfl

/-- Whoever did not match keeps its place. -/
theorem Place.pass (hp : h.Place j w) (hn : Around h (h.taken cfg g d rest m before v behind))
    (hsplit : h.waiters = before ++ v :: behind) (hj : v.id ≠ j) :
    (h.taken cfg g d rest m before v behind).Place j w := by
  have hsame : (h.taken cfg g d rest m before v behind).claimsOf j = h.claimsOf j := by
    rw [claimsOf_taken, if_neg hj, List.append_nil]
  refine hp.see hn hsame (waitersOf_taken_nil hsplit hj) fun u hu => ?_
  rw [waitersOf_split hsplit hj, List.append_eq_singleton_iff] at hu
  rw [waitersOf_taken]
  obtain ⟨hbefore, hbehind⟩ | ⟨hbefore, hbehind⟩ := hu
  · rw [hbefore, hbehind]
    exact ⟨u, rfl, rfl⟩
  · rw [hbefore, hbehind]
    exact ⟨_, rfl, Waiter.see_predicate⟩

/-- Who matched has its claim. -/
theorem Attended.take (ha : h.Attended cfg) (hp : h.Paired) (hs : h.Serves g d rest x)
    (hsplit : h.waiters = before ++ v :: behind) (hmatch : v.matchesMessage m = true) :
    ∃ w, h.waits[v.id]? = some w ∧
      (h.taken cfg g d rest m before v behind).Place v.id w := by
  obtain ⟨hbefore, hbehind, hx, w, k, hw, hpending, hpred, hk, hstage⟩ := ha.listed hsplit
  obtain ⟨hcalling, hended, hrefused⟩ := WaitStage.not_over_of_listed hstage
  refine ⟨w, hw, .claimed (v.claim g d m (cfg.callback m h.claims.length)) ?_ ?_
    ⟨?_, ?_, fun k' hk' => ?_, hcalling, hrefused, ?_⟩⟩
  · rw [waitersOf_taken, hbefore, hbehind]
    rfl
  · rw [claimsOf_taken, hx, if_pos rfl]
    rfl
  · exact hpred ▸ hmatch
  · rw [hpending]
    exact .idle (.inl rfl)
  · rw [hk'] at hstage
    rcases hstage with hstage | hstage
    · cases hstage
      obtain rfl := Option.some.inj (hk.symm.trans (hs.current hp))
      exact ⟨rfl, started_served (h := h) (hs.started hp ha.toOrderly).2⟩
    · cases hstage
  · exact fun o ho => (hended o ho).elim

theorem Attended.taken (ha : h.Attended cfg) (hp : h.Paired) (hs : h.Serves g d rest x)
    (hsplit : h.waiters = before ++ v :: behind) (hmatch : v.matchesMessage m = true) :
    (h.taken cfg g d rest m before v behind).Attended cfg := by
  have hn : Around h (h.taken cfg g d rest m before v behind) :=
    ⟨fun _ => rfl, fun _ => started_served (h := h), fun _ ht => ht, fun _ hn => hn⟩
  have hserved : (h.served g rest none).Orderly := ha.toOrderly.served hs
  have ho : (h.taken cfg g d rest m before v behind).Orderly := hserved.congr rfl rfl rfl
  refine ha.change ho hn ha.queue.append (ha.handled.append rfl) (fun tag => ?_) fun j => ?_
  · change h.calls.countP _ = (h.claims ++ [_]).countP _
    rw [ha.begun tag, List.countP_append, List.countP_singleton, if_neg (by
      rw [Bool.and_eq_true]
      exact fun hbegun => Bool.false_ne_true hbegun.2)]
    rfl
  · by_cases hj : v.id = j
    · subst hj
      obtain ⟨w, hw, hplace⟩ := ha.take hp hs hsplit hmatch
      exact .inr ⟨w, hw, hplace, ha.tells _ w hw⟩
    · cases hw : h.waits[j]? with
      | some w => exact .inr ⟨w, hw, (ha.placed j w hw).pass hn hsplit hj, ha.tells j w hw⟩
      | none =>
        obtain ⟨hv, _, _⟩ := ha.nobody j hw
        refine .inl ⟨rfl, (waitersOf_taken_nil hsplit hj hv).trans hv.symm, ?_, rfl⟩
        rw [claimsOf_taken, if_neg hj, List.append_nil]

end

theorem Attended.routed {d : Delivery} (ha : h.Attended cfg) (hp : h.Paired)
    (hr : h.Routed cfg g d h') : h'.Attended cfg := by
  cases hr with
  | unclaimed rest x deadline hs => exact ha.passedOn hs
  | claimed rest x m before v behind hs _ hsplit hmatch => exact ha.taken hp hs hsplit hmatch

/-- What becomes of a delivery that a consumer with this deadline hands out: the first waiter that
matches takes it and disarms the deadline, and a delivery that nobody takes sets the deadline unless
it was set before. -/
inductive Dispatched (cfg : Setup M) (h : Harness M) (g : Nat) (deadline : Option Nat)
    (d : Delivery) (rest : List Delivery) : Harness M → Prop
  | unclaimed : (∀ m, cfg.format.decode? d.body = some m →
      ∀ v ∈ h.waiters, v.matchesMessage m = false) →
    Dispatched cfg h g deadline d rest
      (h.passedOn cfg g d rest (deadline <|> some (h.clock + cfg.timeout)))
  | claimed (m : M) (before : List (Waiter M)) (v : Waiter M) (behind : List (Waiter M)) :
    cfg.format.decode? d.body = some m → h.waiters = before ++ v :: behind →
    v.matchesMessage m = true → (∀ u ∈ before, u.matchesMessage m = false) →
    Dispatched cfg h g deadline d rest (h.taken cfg g d rest m before v behind)

theorem dispatch_dispatched (cfg : Setup M) (h : Harness M) (deadline : Option Nat) (d : Delivery)
    (rest : List Delivery) : ∃ h₁, h.Dispatched cfg g deadline d rest h₁ ∧
      (h.changeGeneration g fun x => { x with inbound := rest }).dispatch cfg g deadline d =
        if h₁.waiters.isEmpty then h₁.changeLife g (·.stop) else h₁ := by
  have hserved : ∀ (h' : Harness M) (deadline : Option Nat),
      ((h'.changeGeneration g fun x => { x with inbound := rest }).enter g (.routing deadline)) =
        h'.served g rest deadline := fun h' deadline =>
    congrArg (fun generations => { h' with generations }) (List.modify_modify_eq _ _ _ _)
  cases hm : firstMatch h.waiters (cfg.format.decode? d.body) d.body with
  | mk waiters outcome =>
    have hm' : firstMatch (h.changeGeneration g fun x => { x with inbound := rest }).waiters
      (cfg.format.decode? d.body) d.body = (waiters, outcome) := hm
    rw [dispatch, hm']
    rcases firstMatch_cases hm with ⟨hseen, hnone, hfree⟩ |
      ⟨m, before, v, behind, hdecode, hsplit, hmatch, hbefore, rfl, hv, hleft⟩
    · refine ⟨_, .unclaimed hfree, ?_⟩
      rw [passedOn, Setup.seen, ← hseen, ← hserved]
      cases outcome with
      | matched i => exact (hnone i rfl).elim
      | malformed | noMatch => rfl
    · refine ⟨_, .claimed m before v behind hdecode hsplit hmatch hbefore, ?_⟩
      simp only [hdecode, hv, hleft]
      rw [taken, Setup.seen, ← hserved, hdecode]
      simp only [Waiter.see_id]
      rfl

theorem Dispatched.routed {deadline : Option Nat} {d : Delivery} {rest : List Delivery}
    (hd : h.Dispatched cfg g deadline d rest h') (hs : h.Serves g d rest x) :
    h.Routed cfg g d h' := by
  cases hd with
  | unclaimed _ => exact .unclaimed rest x _ hs
  | claimed m before v behind hdecode hsplit hmatch _ =>
    exact .claimed rest x m before v behind hs hdecode hsplit hmatch

theorem dispatch_routed {d : Delivery} {rest : List Delivery} (cfg : Setup M)
    (deadline : Option Nat) (hs : h.Serves g d rest x) :
    ∃ h₁, h.Routed cfg g d h₁ ∧
      (h.changeGeneration g fun x => { x with inbound := rest }).dispatch cfg g deadline d =
        if h₁.waiters.isEmpty then h₁.changeLife g (·.stop) else h₁ := by
  obtain ⟨h₁, hd, heq⟩ := dispatch_dispatched cfg h (g := g) deadline d rest
  exact ⟨h₁, hd.routed hs, heq⟩

end Harness
end Intercept
