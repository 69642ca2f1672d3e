import Intercept.Proofs.Harness.History

/-! The deliveries that generations receive and hand out: each tag is received once, by one
generation, and tags ascend. -/
namespace Intercept.Harness
variable {M : Type} {cfg : Setup M} {h h' h₁ : Harness M} {s : Nat → Harness M}
  {g i j k m n : Nat} {c : Consumer Nat} {bodies : List Body} {d e : Delivery}

/-! Messages are published. -/

theorem inbound_receive_of_ne (hk : k ≠ g) : (h.receive g d).inbound k = h.inbound k := by
  simp only [inbound, receive, changeGeneration, List.getElem?_modify_ne _ _ (Ne.symm hk)]

theorem inbound_receive_self {x : Generation} (hx : h.generations[g]? = some x) :
    (h.receive g d).inbound g = h.inbound g ++ [d] := by
  rw [inbound_of_some hx, inbound, receive, getElem?_changeGeneration (h := { h with
    ledger := h.ledger.observe d.tag }) hx]
  rfl

/-- What is published while a generation is attached is delivered to it, under ascending tags. -/
structure Published (h : Harness M) (g : Nat) (ds : List Delivery) (h' : Harness M) : Prop where
  lastTag : h'.broker.lastTag = h.broker.lastTag + ds.length
  tags : ds.map (·.tag) = List.range' (h.broker.lastTag + 1) ds.length
  inbound : h'.inbound g = h.inbound g ++ ds
  others : ∀ k, k ≠ g → h'.inbound k = h.inbound k
  unsettled : h'.broker.unsettled = h.broker.unsettled ++ ds.map fun d => (d.tag, d.body)
  backlog : h'.broker.backlog = h.broker.backlog

/-- The consumer that is attached receives each message. -/
theorem published_publishAll {x : Generation} (bodies : List Body) (hc : h.broker.consumers = [c])
    (hx : h.generations[c.sink]? = some x) :
    ∃ ds, h.Published c.sink ds (h.publishAll bodies).1 ∧ ds.map (·.body) = bodies ∧
      (h.publishAll bodies).2 = ds.map fun d => some d.tag := by
  induction bodies generalizing h x with
  | nil =>
    exact ⟨[], ⟨rfl, rfl, (List.append_nil _).symm, fun _ _ => rfl, (List.append_nil _).symm, rfl⟩,
      rfl, rfl⟩
  | cons body rest ih =>
    let d : Delivery := ⟨h.broker.lastTag + 1, body⟩
    let h₁ : Harness M := { h with broker := { h.broker with
      lastTag := h.broker.lastTag + 1
      unsettled := h.broker.unsettled ++ [(d.tag, d.body)] } }
    have hpublish : h.publish body = (h₁.receive c.sink d, some d.tag) := by
      have hpreferred : Broker.preferred h.broker.consumers = some c := by rw [hc]; rfl
      rw [Harness.publish, Broker.publish, hpreferred]
    have hx₁ : h₁.generations[c.sink]? = some x := hx
    obtain ⟨ds, hrest, hbodies, htags⟩ := @ih (h₁.receive c.sink d) _ hc
      (getElem?_changeGeneration (h := { h₁ with ledger := _ }) hx₁)
    have hlast : (h₁.receive c.sink d).broker.lastTag = h.broker.lastTag + 1 := rfl
    have hunsettled : (h₁.receive c.sink d).broker.unsettled =
        h.broker.unsettled ++ [(d.tag, d.body)] := rfl
    rw [publishAll, hpublish]
    refine ⟨d :: ds, ⟨?_, ?_, ?_, fun k hk => ?_, ?_, hrest.backlog⟩, ?_, ?_⟩
    · rw [hrest.lastTag, hlast, List.length_cons]
      omega
    · rw [List.map_cons, hrest.tags, hlast, List.length_cons, List.range'_succ]
    · rw [hrest.inbound, inbound_receive_self hx₁, List.append_assoc]
      rfl
    · exact (hrest.others k hk).trans (inbound_receive_of_ne hk)
    · rw [hrest.unsettled, hunsettled, List.append_assoc]
      rfl
    · rw [List.map_cons, hbodies]
    · exact congrArg (some d.tag :: ·) htags

theorem inbound_publishAll (bodies : List Body) (hc : h.broker.consumers = []) :
    (h.publishAll bodies).1.broker.lastTag = h.broker.lastTag ∧
      ∀ k, (h.publishAll bodies).1.inbound k = h.inbound k := by
  induction bodies generalizing h with
  | nil => exact ⟨rfl, fun _ => rfl⟩
  | cons body rest ih =>
    have hpublish : h.publish body =
        ({ h with broker := { h.broker with backlog := h.broker.backlog ++ [body] } }, none) := by
      have hpreferred : Broker.preferred h.broker.consumers = none := by rw [hc]; rfl
      rw [Harness.publish, Broker.publish, hpreferred]
    rw [publishAll, hpublish]
    exact @ih { h with broker := { h.broker with backlog := h.broker.backlog ++ [body] } } hc

/-! What a move does to the deliveries. -/

/-- What a move does to the deliveries that wait to be handed out. -/
inductive Delivered (cfg : Setup M) (h h' : Harness M) : Prop
  | none : h'.broker.lastTag = h.broker.lastTag → (∀ k, h'.inbound k = h.inbound k) →
    Delivered cfg h h'
  | received (c : Consumer Nat) (ds : List Delivery) : h.broker.consumers = [c] →
    h.Published c.sink ds h' → Delivered cfg h h'
  | handed (g : Nat) (d : Delivery) (h₁ : Harness M) : h.Routed cfg g d h₁ →
    Deeds False h₁ h' → h'.broker.lastTag = h.broker.lastTag →
    h.inbound g = d :: h'.inbound g → (∀ k, k ≠ g → h'.inbound k = h.inbound k) →
    Delivered cfg h h'

theorem Delivered.of_tidy (ht : h.Tidy h') : h.Delivered cfg h' := .none ht.lastTag ht.inbound

theorem inbound_served {y : Generation} {rest : List Delivery} {deadline : Option Nat}
    (hy : h.generations[g]? = some y) :
    (h.served g rest deadline).inbound g = rest ∧
      ∀ k, k ≠ g → (h.served g rest deadline).inbound k = h.inbound k := by
  refine ⟨?_, fun k hk => ?_⟩
  · rw [inbound, served, getElem?_changeGeneration hy]
    rfl
  · simp only [inbound, served, changeGeneration, List.getElem?_modify_ne _ _ (Ne.symm hk)]

theorem Routed.handed (hr : h.Routed cfg g d h') : h'.broker.lastTag = h.broker.lastTag ∧
    h.inbound g = d :: h'.inbound g ∧ ∀ k, k ≠ g → h'.inbound k = h.inbound k := by
  cases hr with
  | unclaimed rest y deadline hs =>
    obtain ⟨hg, hothers⟩ := @inbound_served M { h with waiters := cfg.seen d h.waiters } g y rest
      deadline hs.found
    exact ⟨rfl, by rw [passedOn, hg, inbound_of_some hs.found, hs.inbound], hothers⟩
  | claimed rest y m before v behind hs _ _ _ =>
    obtain ⟨hg, hothers⟩ := @inbound_served M { h with
      waiters := cfg.seen d before ++ behind
      ledger := h.ledger.startProcessing d.tag
      claims := h.claims ++ [v.claim g d m (cfg.callback m h.claims.length)] } g y rest none hs.found
    exact ⟨rfl, by rw [taken, hg, inbound_of_some hs.found, hs.inbound], hothers⟩

theorem lastTag_answered {x : Claim M} {result : Except Failure Unit} {outcome : Outcome M}
    {broker : Broker Nat} {ledger : Ledger} {ends : Bool} {c : Nat}
    (hs : x.Settling h.Over h.broker h.ledger result broker ledger ends) :
    (h.answered c x outcome broker ledger).broker.lastTag = h.broker.lastTag := by
  cases hs with
  | acked b' l' _ _ hset _ _ _ => exact hset.lastTag
  | rejected failure b' l' _ _ _ hset _ _ _ => exact hset.lastTag
  | _ => rfl

theorem Entry.delivered (he : h.Entry cfg h') (ha : h.Attended cfg) (hi : h.Settled)
    (hp : h.Paired) : h.Delivered cfg h' := by
  cases he with
  | quiet hd => exact .of_tidy (Deeds.tidy ha hd).1
  | published bodies =>
    by_cases hf : h.failure = none
    · obtain ⟨f, hl⟩ := hi.live hf
      have hnobody : h.broker.consumers = [] → h.Delivered cfg (h.publishAll bodies).1 := by
        intro hc
        obtain ⟨hlast, hin⟩ := inbound_publishAll bodies hc
        exact .none hlast hin
      cases hl.front with
      | rest _ hc _ _ _ => exact hnobody hc
      | opening _ _ _ _ hc _ _ => exact hnobody hc
      | closing _ _ _ _ _ hc _ _ => exact hnobody hc
      | routing x c _ hx _ hc _ hsink _ _ =>
        obtain ⟨ds, hpublished, _, _⟩ := published_publishAll bodies hc (hsink ▸ hx)
        exact .received c ds hc hpublished
    · obtain ⟨hlast, hin⟩ := inbound_publishAll bodies (hi.released (hi.disposed hf)).2.1
      exact .none hlast hin
  | routed g d h₁ hr hd _ _ =>
    have htidy := (Deeds.tidy (ha.routed hp hr) hd).1
    obtain ⟨hlast, hg, hothers⟩ := hr.handed
    refine .handed g d h₁ hr hd (htidy.lastTag.trans hlast) ?_ fun k hk =>
      (htidy.inbound k).trans (hothers k hk)
    rw [htidy.inbound]
    exact hg
  | attached g c _ _ _ _ htidy _ _ _ _ | withheld g c _ _ htidy _ _ _ _ _ =>
    exact .of_tidy htidy
  | concluded c x result outcome broker ledger ends _ _ hsettling hmid hd _ =>
    have htidy := (Deeds.tidy hmid hd).1
    exact .none (htidy.lastTag.trans (lastTag_answered hsettling)) htidy.inbound
  | passed g hpass hl =>
    obtain ⟨_, _, _, hpassed⟩ := hpass.passed ha hi hp hl
    exact .none hpassed.lastTag hpassed.inbound

/-- The broker delivered a body under that tag, to the generation that was attached then. -/
def Receives (s : Nat → Harness M) (k g : Nat) (d : Delivery) : Prop :=
  (s k).broker.lastTag < d.tag ∧ d.tag ≤ (s (k + 1)).broker.lastTag ∧
    (d.tag, d.body) ∈ (s (k + 1)).broker.unsettled ∧
    ∃ c, (s k).broker.consumers = [c] ∧ c.sink = g

theorem receives_of_published {ds : List Delivery} (hc : (s n).broker.consumers = [c])
    (hp : (s n).Published c.sink ds (s (n + 1))) (hd : d ∈ ds) : Receives s n c.sink d := by
  have htag : d.tag ∈ ds.map (·.tag) := List.mem_map_of_mem hd
  rw [hp.tags, List.mem_range'_1] at htag
  refine ⟨by omega, by rw [hp.lastTag]; omega, ?_, c, hc, rfl⟩
  rw [hp.unsettled]
  exact List.mem_append_right _ (List.mem_map_of_mem hd)

section
variable (hr : Run cfg (fun a => a.isForeign = false) s)
include hr

theorem Run.delivered (n : Nat) : (s n).Delivered cfg (s (n + 1)) :=
  (hr.entry n).delivered (hr.attended n) (hr.settled n) (hr.paired n)

/-- Tags ascend. -/
theorem Run.lastTag_of_le (hle : m ≤ n) : (s m).broker.lastTag ≤ (s n).broker.lastTag := by
  induction n, hle using Nat.le_induction with
  | base => exact Nat.le_refl _
  | succ n _ ih =>
    refine Nat.le_trans ih ?_
    cases hr.delivered n with
    | none hlast _ => exact Nat.le_of_eq hlast.symm
    | received c ds _ hp =>
      rw [hp.lastTag]
      exact Nat.le_add_right _ _
    | handed g d h₁ _ _ hlast _ _ => exact Nat.le_of_eq hlast.symm

/-- A delivery was received while its generation was the one attached. -/
theorem Run.received (hd : d ∈ (s n).inbound g) : ∃ k < n, Receives s k g d := by
  induction n with
  | zero =>
    rw [hr.start] at hd
    cases hd
  | succ n ih =>
    have hold : d ∈ (s n).inbound g → ∃ k < n + 1, Receives s k g d := by
      intro hmem
      obtain ⟨k, hk, hrest⟩ := ih hmem
      exact ⟨k, by omega, hrest⟩
    cases hr.delivered n with
    | none _ hin => exact hold (hin g ▸ hd)
    | received c ds hc hp =>
      by_cases hg : g = c.sink
      · subst hg
        rw [hp.inbound, List.mem_append] at hd
        rcases hd with hd | hd
        · exact hold hd
        · exact ⟨n, Nat.lt_succ_self n, receives_of_published hc hp hd⟩
      · exact hold (hp.others g hg ▸ hd)
    | handed k e h₁ _ _ _ hk hothers =>
      by_cases hg : g = k
      · subst hg
        refine hold ?_
        rw [hk]
        exact List.mem_cons_of_mem _ hd
      · exact hold (hothers g hg ▸ hd)

/-- No two generations receive the same tag, at whatever times. -/
theorem Run.receiver_unique (hd : d ∈ (s m).inbound g) (he : e ∈ (s n).inbound k)
    (htag : d.tag = e.tag) : g = k := by
  obtain ⟨i, _, hlow, hhigh, _, c, hc, rfl⟩ := hr.received hd
  obtain ⟨j, _, hlow', hhigh', _, c', hc', rfl⟩ := hr.received he
  have hij : i = j := by
    rcases Nat.lt_trichotomy i j with hlt | heq | hgt
    · have := hr.lastTag_of_le (show i + 1 ≤ j from hlt)
      omega
    · exact heq
    · have := hr.lastTag_of_le (show j + 1 ≤ i from hgt)
      omega
  subst hij
  rw [hc] at hc'
  cases hc'
  rfl

end

end Intercept.Harness
