import Intercept.Proofs.Harness.Deliveries

/-! What is offered to a registered waiter: each delivery that no waiter ahead of it takes. -/
namespace Intercept
variable {M : Type}

section
variable {α : Type} {old : α → Prop} {xs ys zs : List α} {a b : α}

theorem pair_sublist_of_append (h : [a, b].Sublist (xs ++ ys)) (hb : b ∉ ys) :
    [a, b].Sublist xs := by
  obtain ⟨early, late, heq, hearly, hlate⟩ := List.sublist_append_iff.1 h
  cases late with
  | nil =>
    rw [List.append_nil] at heq
    rw [heq]
    exact hearly
  | cons c rest =>
    -- Then the second of the two comes late.
    refine (hb (hlate.subset ?_)).elim
    rcases early with _ | ⟨_, _ | ⟨_, _⟩⟩
    · rw [← show [a, b] = c :: rest from heq]
      simp
    · have hrest : [b] = c :: rest := (List.cons.inj heq).2
      rw [← hrest]
      exact List.mem_singleton.2 rfl
    · have hlen := congrArg List.length heq
      simp at hlen

/-- Who was there before somebody that came last stays ahead of it, and nobody else gets there. -/
theorem Renewed.ahead_iff (hr : Renewed old (xs ++ [a]) (ys ++ b :: zs)) (hxs : ∀ c ∈ xs, old c)
    (ha : old a) (hnot : a ∉ xs) (hne : b ≠ a) :
    (a ∈ ys → b ∉ xs) ∧ (a ∈ zs → b ∈ xs) := by
  obtain ⟨kept, fresh, heq, hkept, hfresh⟩ := hr
  have hold : ∀ c, old c → c ∉ fresh := fun c hc hmem => hfresh c hmem hc
  constructor
  · intro hmem hb
    have hpair : [a, b].Sublist (ys ++ b :: zs) :=
      (List.singleton_sublist.2 hmem).append (List.singleton_sublist.2 (List.mem_cons_self ..))
    rw [heq] at hpair
    have hpair := (pair_sublist_of_append hpair (hold b (hxs b hb))).trans hkept
    have hpair := pair_sublist_of_append hpair (by simpa using hne)
    exact hnot (hpair.subset (List.mem_cons_self ..))
  · intro hmem
    have hpair : [b, a].Sublist (ys ++ b :: zs) :=
      ((List.singleton_sublist.2 hmem).cons_cons b).trans (List.sublist_append_right ..)
    rw [heq] at hpair
    have hpair := (pair_sublist_of_append hpair (hold a ha)).trans hkept
    rcases List.mem_append.1 (hpair.subset (List.mem_cons_self ..)) with hb | hb
    · exact hb
    · exact (hne (List.mem_singleton.1 hb)).elim

end

/-- A waiter that saw deliveries has counted them. -/
theorem messageCount_foldl_see {cfg : Setup M} {rs : List (Delivery × Option Nat)}
    {v : Waiter M} :
    (rs.foldl (fun v r => v.see (cfg.format.decode? r.1.body) r.1.body) v).messageCount =
      v.messageCount + rs.length := by
  induction rs generalizing v with
  | nil => rfl
  | cons r rest ih =>
    rw [List.foldl_cons, ih, Waiter.see_messageCount, List.length_cons]
    omega

namespace Harness
variable {cfg : Setup M} {allowed : Act M → Prop} {h h' h₁ : Harness M} {s : Nat → Harness M}
  {g i m n : Nat} {v : Waiter M} {w : Wait M} {d : Delivery}

/-! Which deliveries are handed out. -/

/-- The delivery that the current generation hands out in a move, and the wait that claims it. -/
def routing (h h' : Harness M) : Option (Delivery × Option Nat) :=
  match h.current with
  | none => none
  | some g =>
    match h.inbound g with
    | [] => none
    | d :: rest =>
      if h'.inbound g = rest then some (d, h'.claims[h.claims.length]?.map (·.wait)) else none

/-- The deliveries that are handed out from one moment until another, in this order. -/
def routings (s : Nat → Harness M) (m n : Nat) : List (Delivery × Option Nat) :=
  (List.range' m (n - m)).filterMap fun k => routing (s k) (s (k + 1))

/-- Whether a delivery gets past the waits that stand on a roll. -/
def getsPast (ahead : List Nat) (r : Delivery × Option Nat) : Bool := !r.2.any ahead.contains

theorem routings_self : routings s n n = [] := by
  rw [routings, Nat.sub_self]
  rfl

theorem routings_succ (hle : m ≤ n) :
    routings s m (n + 1) = routings s m n ++ (routing (s n) (s (n + 1))).toList := by
  rw [routings, routings, Nat.succ_sub hle, List.range'_1_concat, List.filterMap_append,
    Nat.add_sub_cancel' hle]
  congr 1

theorem routing_of_length_le (hlen : ∀ g, (h.inbound g).length ≤ (h'.inbound g).length) :
    routing h h' = none := by
  rw [routing]
  cases h.current with
  | none => rfl
  | some g =>
    have hle := hlen g
    cases hin : h.inbound g with
    | nil => simp only [hin]
    | cons d rest =>
      simp only [hin]
      refine if_neg fun heq => ?_
      rw [hin, heq, List.length_cons] at hle
      omega

theorem routing_of_same (hin : ∀ g, h'.inbound g = h.inbound g) : routing h h' = none :=
  routing_of_length_le fun g => by rw [hin g]

theorem routing_of_published {ds : List Delivery} (hp : h.Published g ds h') :
    routing h h' = none := by
  refine routing_of_length_le fun k => ?_
  by_cases hk : k = g
  · subst hk
    rw [hp.inbound, List.length_append]
    omega
  · rw [hp.others k hk]

theorem routing_of_handed (hc : h.current = some g) (hin : h.inbound g = d :: h'.inbound g) :
    routing h h' = some (d, h'.claims[h.claims.length]?.map (·.wait)) := by
  rw [routing, hc]
  simp only [hin, if_pos]

/-! What a move means for the waiters. -/

/-- What a move means for the waiters: it hands out nothing, it offers a delivery to all of them, or
it offers it to those ahead of the one that leaves with it. -/
inductive Hands (cfg : Setup M) (h h' : Harness M) : Prop
  | nothing : routing h h' = none → h.Lists h' → Hands cfg h h'
  | unclaimed (d : Delivery) (h₁ : Harness M) : routing h h' = some (d, none) →
    h₁.waits = h.waits → h₁.waiters = cfg.seen d h.waiters → h₁.Lists h' → Hands cfg h h'
  | claimed (d : Delivery) (before : List (Waiter M)) (u : Waiter M) (behind : List (Waiter M))
    (h₁ : Harness M) : routing h h' = some (d, some u.id) → h.waiters = before ++ u :: behind →
    h₁.waits = h.waits → h₁.waiters = cfg.seen d before ++ behind → h₁.Lists h' → Hands cfg h h'

theorem hands_of_routed (hp : h.Paired) (hr : h.Routed cfg g d h₁)
    (hd : Deeds False h₁ h') (hin : h.inbound g = d :: h'.inbound g) : h.Hands cfg h' := by
  have hdeals := hd.deals
  have hlists := hd.lists
  have hclaims : ∀ p, h'.deals[h.claims.length]? = p →
      h'.claims[h.claims.length]?.map (·.wait) = p.map (·.2.1) := by
    rintro p rfl
    rw [Harness.deals, List.getElem?_map, Option.map_map]
    rfl
  cases hr with
  | unclaimed rest y deadline hs =>
    have hlast : h'.deals[h.claims.length]? = none := by
      rw [hdeals]
      exact List.getElem?_eq_none (by rw [Harness.deals, List.length_map]; exact Nat.le_refl _)
    refine .unclaimed d (h.passedOn cfg g d rest deadline) ?_ rfl rfl hlists
    rw [routing_of_handed (hs.current hp) hin, hclaims _ hlast]
    rfl
  | claimed rest y m before u behind hs _ hw _ =>
    have hlast : h'.deals[h.claims.length]? =
        some (u.claim g d m (cfg.callback m h.claims.length)).deal := by
      have heq : (h.taken cfg g d rest m before u behind).deals =
          h.deals ++ [(u.claim g d m (cfg.callback m h.claims.length)).deal] := List.map_append
      have hlen : h.claims.length = h.deals.length := by rw [Harness.deals, List.length_map]
      rw [hdeals, heq, hlen, List.getElem?_append_right (Nat.le_refl _), Nat.sub_self]
      rfl
    refine .claimed d before u behind (h.taken cfg g d rest m before u behind) ?_ hw rfl rfl hlists
    rw [routing_of_handed (hs.current hp) hin, hclaims _ hlast]
    rfl

/-- Deeds take no delivery back. -/
theorem Deed.inbound_le {loud : Prop} (hd : Deed loud h h') :
    (h.inbound g).length ≤ (h'.inbound g).length := by
  have hchange : ∀ (k : Nat) (φ : Generation → Generation),
      (∀ x, h.generations[k]? = some x → x.inbound.length ≤ (φ x).inbound.length) →
      (h.inbound g).length ≤ ((h.changeGeneration k φ).inbound g).length := by
    intro k φ hφ
    rw [inbound, inbound, changeGeneration, List.getElem?_modify]
    cases hx : h.generations[g]? with
    | none => exact Nat.le_refl _
    | some x =>
      by_cases hk : k = g
      · subst hk
        simpa using hφ x hx
      · simp [hk]
  cases hd with
  | quiet hs =>
    simp only [scene, Prod.mk.injEq] at hs
    rw [inbound, inbound, hs.2.2.2.2.2.2.1]
  | received k d _ => exact hchange k _ fun x _ => by simp
  | moved k φ hφ => exact hchange k φ fun x hx => by rw [(hφ x hx).inbound]
  | created i w _ _ _ _ =>
    cases hx : h.generations[g]? with
    | none =>
      rw [inbound, hx]
      exact Nat.zero_le _
    | some x =>
      have hx' : (h.generations ++ [({ stage := .created h.current } : Generation)])[g]? = some x := by
        rw [List.getElem?_append_left (List.getElem?_eq_some_iff.1 hx).1, hx]
      rw [inbound_of_some hx]
      exact Nat.le_of_eq (congrArg List.length (inbound_of_some (h := { h with
        generations := h.generations ++ [_] }) hx')).symm
  | began c x actions _ _ =>
    obtain ⟨notes, heq, _⟩ := act_eq (h.noteCall (.began x.tag x.message)) c x actions
    rw [heq]
    exact Nat.le_refl _
  | resumed c x actions _ _ =>
    obtain ⟨notes, heq, _⟩ := act_eq h c x actions
    rw [heq]
    exact Nat.le_refl _
  | _ => exact Nat.le_refl _

theorem Deeds.inbound_le {loud : Prop} (hd : Deeds loud h h') :
    (h.inbound g).length ≤ (h'.inbound g).length := by
  induction hd with
  | refl => exact Nat.le_refl _
  | tail _ hone ih => exact Nat.le_trans ih hone.inbound_le

theorem Turn.hands (ht : h.Turn cfg h') (ha : h.Attended cfg) (hp : h.Paired) :
    h.Hands cfg h' := by
  rcases ht with hd | ⟨g, d, h₁, hr, hd⟩
  · exact .nothing (routing_of_length_le fun _ => hd.inbound_le) hd.lists
  · obtain ⟨_, hin, _⟩ := hr.handed
    rw [← (Deeds.tidy (ha.routed hp hr) hd).1.inbound g] at hin
    exact hands_of_routed hp hr hd hin

theorem Run.hands (hr : Run cfg allowed s) (n : Nat) : (s n).Hands cfg (s (n + 1)) :=
  (hr.turn n).hands (hr.attended n) (paired_reachable (hr.reachable n))

/-! What a waiter has seen. -/

theorem enrolled_of_roll (ha : h.Attended cfg) (hi : i ∈ h.roll) : h.Enrolled i := by
  have hlisted := mem_roll.1 hi
  cases hw : h.waits[i]? with
  | none => exact (hlisted (ha.nobody i hw).1).elim
  | some w => exact ⟨w, hw, fun hs => hlisted (ha.unlisted_of_calling hw hs)⟩

/-- A wait has one waiter at most. -/
theorem roll_nodup (ha : h.Attended cfg) : h.roll.Nodup := by
  refine List.nodup_iff_count_le_one.2 fun i => ?_
  have hcount : h.roll.count i = (h.waitersOf i).length := by
    rw [roll, List.count, List.countP_map, List.countP_eq_length_filter]
    rfl
  rw [hcount]
  cases hw : h.waits[i]? with
  | none => simp [(ha.nobody i hw).1]
  | some w =>
    cases ha.placed i w hw with
    | listed v _ hv _ _ _ _ _ => simp [hv]
    | calling hnone _ _ _ | claimed _ hnone _ _ | apart hnone _ _ _ _ => simp [hnone]

/-- The wait is registered in a move. -/
structure Registers (h : Harness M) (i : Nat) (w : Wait M) (h' : Harness M) : Prop where
  waiters : h'.waiters = h.waiters ++ [w.waiter i]
  unlisted : i ∉ h.roll
  enrolled : h'.Enrolled i

theorem registers_of_step (ha : h.Attended cfg) (hw : h.waits[i]? = some w)
    (hs : w.stage = .calling) (hstep : h.step? cfg (.wait i) = some h') :
    h.Registers i w h' ∨ i ∉ h'.roll ∧ h'.Enrolled i := by
  have hunlisted : i ∉ h.roll := by
    intro hi
    obtain ⟨w', hw', hne⟩ := enrolled_of_roll ha hi
    rw [hw] at hw'
    cases hw'
    exact hne hs
  have hregister : h' = h.register i w := by
    have hstep : h.stepWait? cfg i = some h' := hstep
    rw [stepWait?, hw, Option.bind_eq_bind, Option.bind_some, hs] at hstep
    exact (Option.some.inj hstep).symm
  subst hregister
  have henter : ∀ (h₁ : Harness M) (stage : WaitStage M), h₁.waits = h.waits →
      stage ≠ .calling → (h₁.enterWait i stage).Enrolled i :=
    fun h₁ stage heq hne => ⟨_, waits_enterWait_self (heq ▸ hw), hne⟩
  cases hf : h.failure with
  | none =>
    left
    cases hj : h.joinable with
    | some g =>
      rw [register_joins hf hj]
      exact ⟨rfl, hunlisted, henter _ _ rfl (by simp)⟩
    | none =>
      rw [register_creates hf hj]
      exact ⟨rfl, hunlisted, henter _ _ rfl (by simp)⟩
  | some e =>
    right
    have hv : h.waitersOf i = [] := by
      by_contra hne
      exact hunlisted (mem_roll.2 hne)
    have he := HarnessError.not_processing_of_terminal (ha.terminal e hf)
    have hd : Deed False h _ := .turnedAway i w e hw (.inl hs) he
    rw [unlist_of_nil hv] at hd
    have hdisposed : Deeds False (((h.enterWait i (.refused e)).tell i (.result (.error e)))) _ :=
      deeds_disposeIfUnowned (ha.deed hd)
    have hlists := hdisposed.lists.rolls
    have henrolled := henter h (.refused e) rfl (by simp)
    rw [register_of_failure hf, refuse]
    exact ⟨fun hmem => hunlisted (hlists.roll.mem hmem henrolled), hlists.enrolled i henrolled⟩

/-- In one move a waiter that stays sees what is handed out, unless somebody ahead of it takes it. -/
theorem Hands.sees {p : Delivery × Option Nat → Bool} (hh : h.Hands cfg h')
    (hnodup : h.roll.Nodup) (hv : v ∈ h'.waiters) (henrolled : h.Enrolled v.id)
    (hfree : ∀ d, p (d, none) = true)
    (hahead : ∀ d j ahead after, h.roll = ahead ++ j :: after → j ≠ v.id →
      (v.id ∈ ahead → p (d, some j) = true) ∧ (v.id ∈ after → p (d, some j) = false)) :
    ∃ u ∈ h.waiters, u.id = v.id ∧ v = ((routing h h').toList.filter p).foldl
      (fun v r => v.see (cfg.format.decode? r.1.body) r.1.body) u := by
  -- Whoever is listed after the delivery, if there is one, was listed before.
  have hkept : ∀ {h₁ : Harness M}, h₁.waits = h.waits → h₁.Lists h' → v ∈ h₁.waiters := by
    intro h₁ hw hlists
    refine hlists.waiters.mem hv ?_
    rw [Enrolled, hw]
    exact henrolled
  cases hh with
  | nothing hnone hlists =>
    rw [hnone]
    exact ⟨v, hkept rfl hlists, rfl, rfl⟩
  | unclaimed d h₁ hrouting hw hwaiters hlists =>
    have hmem := hkept hw hlists
    rw [hwaiters] at hmem
    obtain ⟨u, hu, rfl⟩ := List.mem_map.1 hmem
    rw [hrouting, Option.toList_some, List.filter_cons_of_pos (hfree d)]
    exact ⟨u, hu, Waiter.see_id.symm, rfl⟩
  | claimed d before taker behind h₁ hrouting hsplit hw hwaiters hlists =>
    have hroll : h.roll = before.map (·.id) ++ taker.id :: behind.map (·.id) := by
      rw [roll, hsplit, List.map_append, List.map_cons]
    rw [hroll] at hnodup
    obtain ⟨_, hbehind, hapart⟩ := List.nodup_append.1 hnodup
    have hmem := hkept hw hlists
    rw [hwaiters, List.mem_append] at hmem
    rw [hrouting, hsplit, Option.toList_some]
    rcases hmem with hmem | hmem
    · obtain ⟨u, hu, rfl⟩ := List.mem_map.1 hmem
      have hid : u.id ∈ before.map (·.id) := List.mem_map_of_mem hu
      rw [Waiter.see_id] at hahead ⊢
      have hpass := (hahead d _ _ _ hroll (hapart _ hid _ (List.mem_cons_self ..)).symm).1 hid
      rw [List.filter_cons_of_pos hpass]
      exact ⟨u, List.mem_append_left _ hu, rfl, rfl⟩
    · have hid : v.id ∈ behind.map (·.id) := List.mem_map_of_mem hmem
      have hne : taker.id ≠ v.id := fun heq => (List.nodup_cons.1 hbehind).1 (heq ▸ hid)
      have hpass := (hahead d _ _ _ hroll hne).2 hid
      rw [List.filter_cons_of_neg (by simp [hpass])]
      exact ⟨v, List.mem_append_right _ (List.mem_cons_of_mem _ hmem), rfl, rfl⟩

/-- As long as its waiter is listed, it has seen each delivery, in order and once, that is handed out
and that no waiter takes which was registered before. -/
theorem Run.offered (hr : Run cfg allowed s)
    (hreg : (s m).Registers i w (s (m + 1))) (hlt : m < n) (hv : v ∈ (s n).waiters)
    (hi : v.id = i) :
    v = ((routings s (m + 1) n).filter (getsPast (s m).roll)).foldl
      (fun v r => v.see (cfg.format.decode? r.1.body) r.1.body) (w.waiter i) := by
  induction n, hlt using Nat.le_induction generalizing v with
  | base =>
    rw [Nat.succ_eq_add_one, routings_self]
    rw [hreg.waiters, List.mem_append, List.mem_singleton] at hv
    rcases hv with hv | hv
    · exact (hreg.unlisted (List.mem_map.2 ⟨v, hv, hi⟩)).elim
    · exact hv
  | succ n hlt ih =>
    subst hi
    have henrolled := (hr.rolls hlt).enrolled _ hreg.enrolled
    have hrolled : (s (m + 1)).roll = (s m).roll ++ [v.id] := by
      rw [roll, hreg.waiters, List.map_append]
      rfl
    obtain ⟨u, hu, hid, hsees⟩ := (hr.hands n).sees (p := getsPast (s m).roll)
      (roll_nodup (hr.attended n)) hv henrolled (fun _ => rfl) fun d j ahead after hroll hne => by
        have hrenewed := (hr.rolls hlt).roll
        rw [hrolled, hroll] at hrenewed
        obtain ⟨hbefore, hbehind⟩ := hrenewed.ahead_iff (fun k hk => (hr.rolls (Nat.le_succ m)).enrolled
          k (enrolled_of_roll (hr.attended m) hk)) hreg.enrolled hreg.unlisted hne
        exact ⟨fun hmem => by simp [getsPast, hbefore hmem], fun hmem => by
          simp [getsPast, hbehind hmem]⟩
    rw [routings_succ hlt, List.filter_append, List.foldl_append, ← ih hu hid]
    exact hsees

/-! What is published reaches the harness. -/

/-- Once the current generation has started, and as long as somebody waits, it is attached and
routes deliveries. -/
theorem Attended.attached (ha : h.Attended cfg) (hi : h.Settled) (hp : h.Paired)
    (hlisted : h.waiters ≠ []) (hc : h.current = some g)
    (hstarted : (h.life g).started = .resolved (.ok ())) :
    ∃ c x deadline, h.broker.consumers = [c] ∧ c.sink = g ∧ h.generations[g]? = some x ∧
      x.stage = .routing deadline := by
  obtain ⟨l, hl, hobs⟩ := hp.observed hlisted
  have hf := (hp.awaited l hl hobs).1
  obtain ⟨k, hk⟩ := List.getElem?_of_mem hl
  have hkg : k = g := by
    have hcurrent := hp.current_observes k l hk hobs
    rw [hc] at hcurrent
    exact (Option.some.inj hcurrent).symm
  subst hkg
  rw [lives, List.getElem?_map] at hk
  obtain ⟨x, hx, rfl⟩ := Option.map_eq_some_iff.1 hk
  rw [life_of_some (lives_of_some hx)] at hstarted
  have hstate : x.life.state = .started := by
    rcases GenerationState.isObserving_iff.1 hobs with hst | hst
    · rw [(ha.signalled _ hl).unstarted hst] at hstarted
      cases hstarted
    · exact hst
  have hopening : ¬ x.stage.isOpening = true := fun hst => ha.unopened k x hx hst hstate
  obtain ⟨f, hlive⟩ := hi.live hf
  have hfront : k = f := by
    rcases Nat.lt_trichotomy k f with hlt | heq | hgt
    · have hcomplete := (hlive.lineup.past k x hx hlt).2
      rw [hstate] at hcomplete
      cases hcomplete
    · exact heq
    · rcases (hlive.lineup.behind k x hx hgt).2 with hst | ⟨_, hst⟩ <;>
        exact (hopening (by rw [hst]; rfl)).elim
  subst hfront
  cases hlive.front with
  | rest hlen _ _ _ _ =>
    have := (List.getElem?_eq_some_iff.1 hx).1
    omega
  | opening y hy hst _ _ _ _ =>
    rw [hx] at hy
    cases hy
    exact (hopening hst).elim
  | routing y c deadline hy hst hcons _ hsink _ _ => exact ⟨c, y, deadline, hcons, hsink, hy, hst⟩
  | closing y c hy _ hstop _ _ _ =>
    rw [hx] at hy
    cases hy
    rw [hstate] at hstop
    cases hstop

/-- Whoever was told that it is registered, and is listed, has a generation that has started. -/
theorem Attended.started_of_told (ha : h.Attended cfg) (ht : .registered ∈ h.told i)
    (hi : i ∈ h.roll) : ∃ g, h.current = some g ∧ (h.life g).started = .resolved (.ok ()) := by
  have hlisted := mem_roll.1 hi
  cases hw : h.waits[i]? with
  | none => exact (hlisted (ha.nobody i hw).1).elim
  | some w =>
    have htells := ha.tells i w hw
    cases ha.placed i w hw with
    | listed _ g _ _ _ _ hc hst =>
      rcases hst with hst | ⟨_, hstarted⟩
      · have hnone : h.told i = [] := by simpa [hst, WaitStage.Tells] using htells
        rw [hnone] at ht
        cases ht
      · exact ⟨g, hc, hstarted⟩
    | calling hnone _ _ _ | claimed _ hnone _ _ | apart hnone _ _ _ _ =>
      exact (hlisted hnone).elim

theorem Attended.enrolled_of_told (ha : h.Attended cfg) (ht : .registered ∈ h.told i) :
    h.Enrolled i := by
  cases hw : h.waits[i]? with
  | none =>
    rw [(ha.nobody i hw).2.2] at ht
    cases ht
  | some w =>
    refine ⟨w, hw, fun hst => ?_⟩
    have hnone : h.told i = [] := by simpa [hst, WaitStage.Tells] using ha.tells i w hw
    rw [hnone] at ht
    cases ht

theorem Routed.current (hr : h.Routed cfg g d h') (hp : h.Paired) : h.current = some g := by
  cases hr with
  | unclaimed _ _ _ hs => exact hs.current hp
  | claimed _ _ _ _ _ _ hs _ _ _ => exact hs.current hp

section
variable (hr : Run cfg (fun a => a.isForeign = false) s)
include hr

/-- As long as a waiter stays listed whose generation has started, this generation is current and
attached. -/
theorem Run.attached_of_le (ht : .registered ∈ (s m).told i) (hle : m ≤ n)
    (hi : i ∈ (s n).roll) : ∃ g c x, (s m).current = some g ∧ (s n).current = some g ∧
      (s n).broker.consumers = [c] ∧ c.sink = g ∧ (s n).generations[g]? = some x := by
  have hrolls := hr.rolls hle
  have henrolled := (hr.attended m).enrolled_of_told ht
  obtain ⟨g, hc, hstarted⟩ :=
    (hr.attended m).started_of_told ht (hrolls.roll.mem hi henrolled)
  have hcurrent := (hrolls.current i hi henrolled).trans hc
  have hstarted' : ((s n).life g).started = .resolved (.ok ()) := by
    cases hx : (s m).generations[g]? with
    | none =>
      rw [life, hx] at hstarted
      cases hstarted
    | some x =>
      obtain ⟨y, hy, hlife, _⟩ := hr.grows hle g x hx
      rw [life_of_some (lives_of_some hx)] at hstarted
      rw [life_of_some (lives_of_some hy)]
      exact hlife.started _ hstarted
  have hlisted : (s n).waiters ≠ [] := by
    rintro hnil
    rw [roll, hnil] at hi
    cases hi
  obtain ⟨c, x, _, hcons, hsink, hx, _⟩ :=
    (hr.attended n).attached (hr.settled n) (hr.paired n) hlisted hcurrent hstarted'
  exact ⟨g, c, x, hc, hcurrent, hcons, hsink, hx⟩

/-- As long as the waiter stays listed, its generation hands out in order what it had received, and
then what is published meanwhile. -/
theorem Run.in_order (ht : .registered ∈ (s m).told i) (hle : m ≤ n) (hi : i ∈ (s n).roll)
    (hg : (s m).current = some g) :
    ∃ ds, (routings s m n).map (·.1) ++ (s n).inbound g = (s m).inbound g ++ ds ∧
      (s n).broker.lastTag = (s m).broker.lastTag + ds.length ∧
      ds.map (·.tag) = List.range' ((s m).broker.lastTag + 1) ds.length ∧
      ∀ d ∈ ds, ∃ k, m ≤ k ∧ k < n ∧ Receives s k g d := by
  induction n, hle using Nat.le_induction with
  | base => exact ⟨[], by rw [routings_self, List.append_nil]; rfl, rfl, rfl, nofun⟩
  | succ n hle ih =>
    have henrolled := (hr.rolls hle).enrolled i ((hr.attended m).enrolled_of_told ht)
    have hin := (hr.rolls (Nat.le_succ n)).roll.mem hi henrolled
    obtain ⟨ds, heq, hlast, htags, hreceived⟩ := ih hin
    obtain ⟨g', c, x, hg', hcurrent, hcons, hsink, _⟩ := hr.attached_of_le ht hle hin
    obtain rfl := Option.some.inj (hg.symm.trans hg')
    have hreceived' : ∀ d ∈ ds, ∃ k, m ≤ k ∧ k < n + 1 ∧ Receives s k g d := by
      intro d hd
      obtain ⟨k, hmk, hkn, hrec⟩ := hreceived d hd
      exact ⟨k, hmk, by omega, hrec⟩
    rw [routings_succ hle, List.map_append]
    cases hr.delivered n with
    | none hlast' hsame =>
      refine ⟨ds, ?_, hlast'.trans hlast, htags, hreceived'⟩
      rw [routing_of_same hsame, hsame g]
      simpa using heq
    | received c' ds' hcons' hp =>
      rw [hcons] at hcons'
      cases hcons'
      rw [hsink] at hp
      refine ⟨ds ++ ds', ?_, ?_, ?_, fun d hd => ?_⟩
      · rw [routing_of_published hp, hp.inbound, Option.toList_none, List.map_nil, List.append_nil,
          ← List.append_assoc, heq, List.append_assoc]
      · rw [hp.lastTag, hlast, List.length_append]
        omega
      · rw [List.map_append, htags, hp.tags, hlast, List.length_append, ← List.range'_append_1,
          Nat.add_right_comm]
      · rcases List.mem_append.1 hd with hd | hd
        · exact hreceived' d hd
        · exact ⟨n, hle, Nat.lt_succ_self n, hsink ▸ receives_of_published hcons (hsink ▸ hp) hd⟩
    | handed g' d h₁ hrouted _ hlast' hg' hothers =>
      obtain rfl := Option.some.inj (hcurrent.symm.trans (hrouted.current (hr.paired n)))
      refine ⟨ds, ?_, hlast'.trans hlast, htags, hreceived'⟩
      rw [routing_of_handed hcurrent hg', ← heq, hg']
      simp

/-- Once all that a generation received is handed out, each message that was published meanwhile has
been handed out once. -/
theorem Run.handed_once {t : Nat} (ht : .registered ∈ (s m).told i) (hle : m ≤ n)
    (hi : i ∈ (s n).roll) (hg : (s m).current = some g) (hempty : (s n).inbound g = [])
    (hlow : (s m).broker.lastTag < t) (hhigh : t ≤ (s n).broker.lastTag) :
    ((routings s m n).map (·.1.tag)).count t = 1 := by
  obtain ⟨ds, heq, hlast, htags, _⟩ := hr.in_order ht hle hi hg
  rw [hempty, List.append_nil] at heq
  have hmap : (routings s m n).map (·.1.tag) =
      ((s m).inbound g).map (·.tag) ++ ds.map (·.tag) := by
    rw [← List.map_append, ← heq, List.map_map]
    rfl
  have hbefore : (((s m).inbound g).map (·.tag)).count t = 0 := by
    refine List.count_eq_zero_of_not_mem fun hmem => ?_
    obtain ⟨d, hd, rfl⟩ := List.mem_map.1 hmem
    obtain ⟨k, hk, _, hle', _⟩ := hr.received hd
    have := hr.lastTag_of_le (show k + 1 ≤ m from hk)
    omega
  rw [hmap, List.count_append, hbefore, Nat.zero_add, htags]
  refine List.count_eq_one_of_mem (List.nodup_range' ..) ?_
  rw [List.mem_range'_1]
  omega

end

/-- A registered wait misses nothing. As long as its waiter is listed, the waiter has seen each
delivery that was handed out since its registration and that no waiter took which was registered
before it, each once and in order; these are the messages that it has counted. And once its caller
was told that it is registered, whatever is published is delivered to the generation that it waits
for. This one hands out what it had received then, and after that, in order, what was published
since. -/
theorem registered_waits_miss_nothing (hr : Run cfg (fun a => a.isForeign = false) s) :
    (∀ (m n i : Nat) (w : Wait M) (v : Waiter M), (s m).waits[i]? = some w →
      w.stage = .calling → (s m).step? cfg (.wait i) = some (s (m + 1)) → m < n →
      v ∈ (s n).waiters → v.id = i →
      v = ((routings s (m + 1) n).filter (getsPast (s m).roll)).foldl
        (fun v r => v.see (cfg.format.decode? r.1.body) r.1.body) (w.waiter i) ∧
      v.messageCount = (routings s (m + 1) n).countP (getsPast (s m).roll)) ∧
    ∀ m n i, .registered ∈ (s m).told i → m ≤ n → i ∈ (s n).roll →
      ∃ g, (s m).current = some g ∧ (s n).current = some g ∧
        (∀ body, ((s n).publish body).2 = some ((s n).broker.lastTag + 1) ∧
          ((s n).publish body).1.broker.backlog = (s n).broker.backlog) ∧
        (∀ bodies, ((s n).publishAll bodies).2 =
            (List.range' ((s n).broker.lastTag + 1) bodies.length).map some ∧
          ((s n).publishAll bodies).1.broker.backlog = (s n).broker.backlog) ∧
        (∃ ds, (routings s m n).map (·.1) ++ (s n).inbound g = (s m).inbound g ++ ds ∧
          ds.map (·.tag) = List.range' ((s m).broker.lastTag + 1)
            ((s n).broker.lastTag - (s m).broker.lastTag) ∧
          ∀ d ∈ ds, ∃ k, m ≤ k ∧ k < n ∧ Receives s k g d) ∧
        ((s n).inbound g = [] → ∀ t, (s m).broker.lastTag < t → t ≤ (s n).broker.lastTag →
          ((routings s m n).map (·.1.tag)).count t = 1) := by
  refine ⟨fun m n i w v hw hst hstep hlt hv hi => ?_, fun m n i ht hle hi => ?_⟩
  · have hregisters : (s m).Registers i w (s (m + 1)) := by
      rcases registers_of_step (hr.attended m) hw hst hstep with hreg | ⟨hunlisted, henrolled⟩
      · exact hreg
      · have hroll : i ∈ (s n).roll := List.mem_map.2 ⟨v, hv, hi⟩
        exact (hunlisted ((hr.rolls hlt).roll.mem hroll henrolled)).elim
    have hoffered := hr.offered hregisters hlt hv hi
    refine ⟨hoffered, ?_⟩
    rw [hoffered, messageCount_foldl_see, List.countP_eq_length_filter]
    exact Nat.zero_add _
  · obtain ⟨g, c, x, hg, hg', hcons, hsink, hx⟩ := hr.attached_of_le ht hle hi
    have hpublishAll : ∀ bodies, ((s n).publishAll bodies).2 =
          (List.range' ((s n).broker.lastTag + 1) bodies.length).map some ∧
        ((s n).publishAll bodies).1.broker.backlog = (s n).broker.backlog := by
      intro bodies
      obtain ⟨ds, hp, rfl, htags⟩ := published_publishAll bodies hcons (hsink ▸ hx)
      refine ⟨?_, hp.backlog⟩
      rw [htags, List.length_map, ← hp.tags, List.map_map]
      rfl
    obtain ⟨ds, heq, hlast, htags, hreceived⟩ := hr.in_order ht hle hi hg
    refine ⟨g, hg, hg', fun body => ?_, hpublishAll, ⟨ds, heq, ?_, hreceived⟩,
      fun hempty t hlow hhigh => hr.handed_once ht hle hi hg hempty hlow hhigh⟩
    · obtain ⟨htag, hbacklog⟩ := hpublishAll [body]
      exact ⟨(List.cons.inj htag).1, hbacklog⟩
    · rw [htags, hlast, Nat.add_sub_cancel_left]

/-- Two callers wait. The first takes the first message, and the second looks at the second one. -/
def vigil : List (Move Unit) :=
  [.act (.call "a message" fun _ => .holds true), .act (.call "another" fun _ => .holds false),
    .step (.wait 0), .step (.wait 1), .step (.generation 0), .step (.wait 1),
    .act (.publishAll [default, default]), .step (.generation 0), .step (.generation 0)]

/-- The second waiter has counted the one message that the first did not take. -/
theorem second_waiter_sees_rest : ∃ s : Nat → Harness Unit,
    Run .bare (fun a => a.isForeign = false) s ∧
    (∃ v ∈ (s 9).waiters, v.id = 1 ∧ v.messageCount = 1 ∧
      v.messageCount = (routings s 4 9).countP (getsPast (s 3).roll)) ∧
    (routings s 4 9).map (·.1.tag) = [1, 2] ∧
    ∃ g, (s 6).current = some g ∧ ((routings s 6 9).map (·.1.tag)).count 2 = 1 := by
  have hr : Run .bare _ (after .bare (initial .bare) vigil) := run_after rfl
  obtain ⟨hsees, hgets⟩ := registered_waits_miss_nothing hr
  refine ⟨_, hr, ⟨_, List.mem_cons_self .., rfl, rfl, ?_⟩, rfl, ?_⟩
  · exact (hsees 3 9 1 _ _ rfl rfl rfl (by decide) (List.mem_cons_self ..) rfl).2
  · obtain ⟨g, hg, _, _, _, _, honce⟩ := hgets 6 9 1 (List.mem_cons_self ..) (by decide)
      (List.mem_cons_self ..)
    obtain rfl := Option.some.inj (show some 0 = some g from hg)
    exact ⟨0, rfl, honce rfl 2 (by decide) (by decide)⟩

end Harness
end Intercept
