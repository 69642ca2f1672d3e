import Mathlib.Data.List.Perm.Subperm
import Intercept.Proofs.Harness.Courses
import Intercept.Proofs.Harness.Outcomes

/-! Which wait gets which delivery is settled by what was registered and what was published, however
long the callbacks take and whatever comes of them. -/
namespace Intercept
variable {M : Type}

/-- A setup in which an empty body is malformed, and a message says whether its body is short. -/
def Setup.terse (callback : List Action) (prefetchCount : UInt16) : Setup Bool where
  format := { decode? := fun body => if body.isEmpty then none else some (body.length == 1)
              view := fun _ => .null }
  settings := { prefetchCount }
  callback := fun _ => callback
  consumerTag := fun _ => "consumer"

section
variable {format : MessageFormat M} {callers : List (Nat × (M → Verdict))}
  {bodies xs ys : List Body} {body : Body} {ds es : List Delivery} {os ps : List (Option Nat)}
  {pairs : List (Nat × Nat)} {t : Nat}

/-! The greedy assignment. -/

/-- The first of the waits whose predicate takes a body. Nobody takes a malformed one. -/
def claimant (format : MessageFormat M) (callers : List (Nat × (M → Verdict))) (body : Body) :
    Option Nat :=
  (format.decode? body).bind fun m => (callers.find? fun c => (c.2 m).claims).map (·.1)

/-- The waits that are left after one of them took a body. -/
def leftBy (format : MessageFormat M) (callers : List (Nat × (M → Verdict))) (body : Body) :
    List (Nat × (M → Verdict)) :=
  callers.filter fun c => claimant format callers body != some c.1

/-- Each body in turn goes to the first wait that is left and takes it. -/
def greedy (format : MessageFormat M) :
    List (Nat × (M → Verdict)) → List Body → List (Option Nat)
  | _, [] => []
  | callers, body :: rest =>
    claimant format callers body :: greedy format (leftBy format callers body) rest

theorem greedy_append : greedy format callers (xs ++ ys) =
    greedy format callers xs ++ greedy format (xs.foldl (leftBy format) callers) ys := by
  induction xs generalizing callers with
  | nil => rfl
  | cons body rest ih => exact congrArg (_ :: ·) ih

theorem length_greedy : (greedy format callers bodies).length = bodies.length := by
  induction bodies generalizing callers with
  | nil => rfl
  | cons body rest ih => exact congrArg (· + 1) ih

/-- Once no wait is left, nobody takes anything. -/
theorem greedy_nil : greedy format [] bodies = bodies.map fun _ => none := by
  induction bodies with
  | nil => rfl
  | cons body rest ih =>
    have hnobody : claimant format [] body = none := by
      rw [claimant]
      cases format.decode? body <;> rfl
    rw [greedy, hnobody, List.map_cons]
    exact congrArg (_ :: ·) ih

/-- The tags that waits got, each with its wait. -/
def assigned (ds : List Delivery) (os : List (Option Nat)) : List (Nat × Nat) :=
  (ds.zip os).filterMap fun r => r.2.map (r.1.tag, ·)

theorem assigned_append (hlen : ds.length = os.length) :
    assigned (ds ++ es) (os ++ ps) = assigned ds os ++ assigned es ps := by
  rw [assigned, List.zip_append hlen, List.filterMap_append, assigned, assigned]

theorem assigned_nobody : assigned ds (bodies.map fun _ => none) = [] := by
  refine List.filterMap_eq_nil_iff.2 fun r hr => ?_
  obtain ⟨_, _, heq⟩ := List.mem_map.1 (List.of_mem_zip hr).2
  rw [← heq]
  rfl

theorem tag_of_assigned {p : Nat × Nat} (hp : p ∈ assigned ds os) : p.1 ∈ ds.map (·.tag) := by
  obtain ⟨⟨d, o⟩, hr, hsome⟩ := List.mem_filterMap.1 hp
  obtain ⟨i, _, rfl⟩ := Option.map_eq_some_iff.1 hsome
  exact List.mem_map_of_mem (List.of_mem_zip hr).1

theorem lookup_of_not_mem (h : ∀ p ∈ pairs, p.1 ≠ t) : pairs.lookup t = none := by
  refine List.lookup_eq_none_iff.2 fun p hp => ?_
  exact bne_iff_ne.2 (h p hp).symm

/-- Each delivery is looked up where it was assigned. -/
theorem lookup_assigned (pairs : List (Nat × Nat)) (hdistinct : (ds.map (·.tag)).Nodup)
    (hlen : ds.length = os.length) (hfresh : ∀ d ∈ ds, pairs.lookup d.tag = none) :
    ds.map (fun d => (pairs ++ assigned ds os).lookup d.tag) = os := by
  induction ds generalizing pairs os with
  | nil => exact (List.length_eq_zero_iff.1 hlen.symm).symm
  | cons d rest ih =>
    cases os with
    | nil => cases hlen
    | cons o os =>
      obtain ⟨hnot, hdistinct⟩ : d.tag ∉ rest.map (·.tag) ∧ (rest.map (·.tag)).Nodup :=
        List.nodup_cons.1 hdistinct
      have hcons : assigned (d :: rest) (o :: os) =
          (o.map (d.tag, ·)).toList ++ assigned rest os := by
        cases o <;> rfl
      have hhead : (o.map (d.tag, ·)).toList.lookup d.tag = o := by
        cases o with
        | none => rfl
        | some i => simp
      have hrest : (assigned rest os).lookup d.tag = none :=
        lookup_of_not_mem fun p hp heq => hnot (heq ▸ tag_of_assigned hp)
      rw [hcons, ← List.append_assoc, List.map_cons]
      congr 1
      · rw [List.lookup_append, List.lookup_append, hfresh d (List.mem_cons_self ..), hhead, hrest]
        cases o <;> rfl
      · refine ih _ hdistinct (Nat.succ.inj hlen) fun e he => ?_
        rw [List.lookup_append, hfresh e (List.mem_cons_of_mem _ he), Option.none_or]
        refine lookup_of_not_mem fun p hp heq => hnot ?_
        obtain ⟨i, _, rfl⟩ := Option.map_eq_some_iff.1 (Option.mem_toList.1 hp)
        rw [show d.tag = e.tag from heq]
        exact List.mem_map_of_mem he

end

namespace Harness
variable {cfg cfg' : Setup M} {allowed : Act M → Prop} {h h' h₁ : Harness M}
  {s s' : Nat → Harness M} {g i k m n : Nat} {d : Delivery} {rest : List Delivery}
  {deadline : Option Nat}

/-- The listed waits with what they wait for, in the order of their registration. -/
def callers (h : Harness M) : List (Nat × (M → Verdict)) :=
  h.waiters.map fun v => (v.id, v.predicate)

/-- The claimed tags, each with the wait that claimed it. -/
def pairs (h : Harness M) : List (Nat × Nat) := h.claims.map fun x => (x.tag, x.wait)

/-- The wait that claimed a tag. -/
def holder (h : Harness M) (t : Nat) : Option Nat := h.pairs.lookup t

/-- The deliveries that a generation receives from one moment until another. -/
def arrivals (s : Nat → Harness M) (g m n : Nat) : List Delivery :=
  (List.range' m (n - m)).flatMap fun k =>
    ((s (k + 1)).inbound g).drop ((s k).inbound g).length

theorem arrivals_self : arrivals s g n n = [] := by
  rw [arrivals, Nat.sub_self]
  rfl

theorem arrivals_succ (hle : m ≤ n) : arrivals s g m (n + 1) =
    arrivals s g m n ++ ((s (n + 1)).inbound g).drop ((s n).inbound g).length := by
  rw [arrivals, arrivals, Nat.succ_sub hle, List.range'_1_concat, List.flatMap_append,
    Nat.add_sub_cancel' hle, List.flatMap_singleton]

/-! One delivery is handed out. -/

theorem pairs_of_deals (hd : h'.deals = h.deals) : h'.pairs = h.pairs := by
  have hmap : ∀ h : Harness M, h.pairs = h.deals.map fun p => (p.1, p.2.1) := by
    intro h
    rw [pairs, deals, List.map_map]
    rfl
  rw [hmap, hd, hmap]

theorem find?_callers {waiters : List (Waiter M)} {message : M} :
    ((waiters.map fun v => (v.id, v.predicate)).find? fun c => (c.2 message).claims).map (·.1) =
      (waiters.find? (·.matchesMessage message)).map (·.id) := by
  rw [List.find?_map, Option.map_map]
  rfl

theorem callers_seen {waiters : List (Waiter M)} :
    ((cfg.seen d waiters).map fun v => (v.id, v.predicate)) =
      waiters.map fun v => (v.id, v.predicate) := by
  simp [Setup.seen]

/-- One of the callers leaves. -/
theorem filter_callers {before behind : List (Waiter M)} {v : Waiter M}
    (hnodup : (before.map (·.id) ++ v.id :: behind.map (·.id)).Nodup) :
    ((before ++ v :: behind).map fun v => (v.id, v.predicate)).filter
      (fun c => some v.id != some c.1) = (before ++ behind).map fun v => (v.id, v.predicate) := by
  obtain ⟨_, hbehind, hapart⟩ := List.nodup_append.1 hnodup
  have hkept : ∀ us : List (Waiter M), (∀ u ∈ us, v.id ≠ u.id) →
      (us.map fun v => (v.id, v.predicate)).filter (fun c => some v.id != some c.1) =
        us.map fun v => (v.id, v.predicate) := by
    intro us hus
    refine List.filter_eq_self.2 fun c hc => ?_
    obtain ⟨u, hu, rfl⟩ := List.mem_map.1 hc
    exact bne_iff_ne.2 fun heq => hus u hu (Option.some.inj heq)
  rw [List.map_append, List.map_append, List.map_cons, List.filter_append,
    List.filter_cons_of_neg (by simp), hkept, hkept]
  · intro u hu heq
    exact (List.nodup_cons.1 hbehind).1 (heq ▸ List.mem_map_of_mem hu)
  · intro u hu heq
    exact hapart _ (List.mem_map_of_mem hu) _ (List.mem_cons_self ..) heq.symm

/-- The delivery goes to the first caller that takes it, who leaves the list. -/
theorem Dispatched.greedy (hd : h.Dispatched cfg g deadline d rest h') (hnodup : h.roll.Nodup) :
    h'.callers = leftBy cfg.format h.callers d.body ∧
      h'.pairs = h.pairs ++ assigned [d] [claimant cfg.format h.callers d.body] := by
  cases hd with
  | unclaimed hnone =>
    have hclaimant : claimant cfg.format h.callers d.body = none := by
      rw [claimant]
      cases hdecode : cfg.format.decode? d.body with
      | none => rfl
      | some message =>
        rw [Option.bind_some, callers, find?_callers,
          List.find?_eq_none.2 fun v hv => by simp [hnone message hdecode v hv]]
        rfl
    rw [leftBy, hclaimant]
    exact ⟨callers_seen.trans (List.filter_eq_self.2 fun c _ => rfl).symm, (List.append_nil _).symm⟩
  | claimed message before v behind hdecode hsplit hmatch hbefore =>
    have hfirst : h.waiters.find? (·.matchesMessage message) = some v := by
      rw [hsplit, List.find?_append, List.find?_eq_none.2 fun u hu => by simp [hbefore u hu],
        Option.none_or, List.find?_cons, hmatch]
    have hclaimant : claimant cfg.format h.callers d.body = some v.id := by
      rw [claimant, hdecode, Option.bind_some, callers, find?_callers, hfirst]
      rfl
    have hleft : (h.taken cfg g d rest message before v behind).callers =
        (before ++ behind).map fun v => (v.id, v.predicate) := by
      change (cfg.seen d before ++ behind).map _ = _
      rw [List.map_append, callers_seen, List.map_append]
    rw [roll, hsplit, List.map_append, List.map_cons] at hnodup
    rw [hleft, leftBy, hclaimant, callers, hsplit, filter_callers hnodup]
    exact ⟨rfl, List.map_append⟩

/-! From one moment until another. -/

/-- The waits that are registered at one moment get what a generation receives from then on. Until
all of it is handed out, or no waiter is left, nobody else registers or gives up, nothing fails, and
no deadline passes. -/
structure Exchange (s : Nat → Harness M) (g m n : Nat) (ds : List Delivery) : Prop where
  ordered : m ≤ n
  current : (s m).current = some g
  before : (s m).inbound g = []
  received : arrivals s g m n = ds
  routed : (s n).inbound g = [] ∨ (s n).waiters = []
  closed : ∀ i, (s n).Enrolled i → (s m).Enrolled i
  unfailed : (s n).failure = none
  patient : ∀ i ∈ (s m).roll, ∀ w, (s n).waits[i]? = some w → w.stage ≠ .dropped ∧ ¬ w.Lapsed

section
variable (hr : Run cfg (fun a => a.isForeign = false) s)
include hr

/-- What a generation receives comes under new tags, which ascend. -/
theorem Run.arrivals_ascend (hle : m ≤ n) :
    ((arrivals s g m n).map (·.tag)).Pairwise (· < ·) ∧
      ∀ t ∈ (arrivals s g m n).map (·.tag),
        (s m).broker.lastTag < t ∧ t ≤ (s n).broker.lastTag := by
  induction n, hle using Nat.le_induction with
  | base =>
    rw [arrivals_self]
    exact ⟨.nil, nofun⟩
  | succ n hle ih =>
    obtain ⟨hascend, hwithin⟩ := ih
    have hlast := hr.lastTag_of_le (Nat.le_succ n)
    have hsince := hr.lastTag_of_le hle
    -- What arrives with the last move comes under tags beyond all that the broker gave before.
    have hnew : ∀ ds : List Delivery, ds = ((s (n + 1)).inbound g).drop ((s n).inbound g).length →
        (ds.map (·.tag)).Pairwise (· < ·) ∧ ∀ t ∈ ds.map (·.tag),
          (s n).broker.lastTag < t ∧ t ≤ (s (n + 1)).broker.lastTag := by
      rintro ds rfl
      cases hr.delivered n with
      | none _ hin =>
        rw [hin g, List.drop_length]
        exact ⟨.nil, nofun⟩
      | received c ds hc hp =>
        by_cases hg : g = c.sink
        · subst hg
          rw [hp.inbound, List.drop_left, hp.tags, hp.lastTag]
          refine ⟨List.pairwise_lt_range' .., fun t ht => ?_⟩
          rw [List.mem_range'_1] at ht
          omega
        · rw [hp.others g hg, List.drop_length]
          exact ⟨.nil, nofun⟩
      | handed g' d h₁ _ _ _ hself hothers =>
        by_cases hg : g = g'
        · subst hg
          rw [hself, List.drop_of_length_le (by simp)]
          exact ⟨.nil, nofun⟩
        · rw [hothers g hg, List.drop_length]
          exact ⟨.nil, nofun⟩
    obtain ⟨hascend', hwithin'⟩ := hnew _ rfl
    rw [arrivals_succ hle, List.map_append]
    refine ⟨List.pairwise_append.2 ⟨hascend, hascend', fun t ht u hu => ?_⟩, fun t ht => ?_⟩
    · exact Nat.lt_of_le_of_lt (hwithin t ht).2 (hwithin' u hu).1
    · rcases List.mem_append.1 ht with ht | ht
      · exact ⟨(hwithin t ht).1, Nat.le_trans (hwithin t ht).2 hlast⟩
      · exact ⟨Nat.lt_of_le_of_lt hsince (hwithin' t ht).1, (hwithin' t ht).2⟩

/-- As long as no delivery is handed out, nobody leaves the list. -/
theorem Exchange.stays (hx : Exchange s g m n ds) (hmk : m ≤ k) (hkn : k < n)
    (hd : (s (k + 1)).deals = (s k).deals) : (s k).roll ⊆ (s (k + 1)).roll := by
  intro i hi
  have henrolled := enrolled_of_roll (hr.attended k) hi
  rcases (hr.happening k).stays (hr.attended k) (hr.paired k) hi with
    hstays | ⟨x, hx', hwait⟩ | ⟨w, hw, hleft⟩
  · exact hstays
  · obtain ⟨_, _, _, _, hfree, _⟩ := (hr.attended k).wait_of_roll hi
    obtain ⟨c, hc⟩ := List.getElem?_of_mem hx'
    obtain ⟨y, hy, hdeal⟩ := claim_of_deal (hd ▸ deals_of_some hc)
    have hmem : y ∈ (s k).claimsOf i := by
      refine List.mem_filter.2 ⟨List.mem_of_getElem? hy, beq_iff_eq.2 ?_⟩
      exact (Claim.deal_eq_iff.1 hdeal).2.1.trans hwait
    rw [hfree] at hmem
    cases hmem
  · obtain ⟨w', hw', habides⟩ := hr.wait_of_le hkn hw
    have hi' : i ∈ (s m).roll := (hr.rolls hmk).roll.mem hi
      (hx.closed i ((hr.rolls (Nat.le_of_lt hkn)).enrolled i henrolled))
    obtain ⟨hkeeps, hlapsed⟩ := hx.patient i hi' w' hw'
    rcases hleft with hdropped | hlapse | ⟨hfailed, _⟩
    · exact (hkeeps (habides.dropped hdropped)).elim
    · exact (hlapsed (habides.lapsed hlapse)).elim
    · exact (hfailed (hr.unfailed_of_le hkn hx.unfailed)).elim

/-- As long as no delivery is handed out, nothing changes for those who wait. -/
theorem Exchange.still (hx : Exchange s g m n ds) (hmk : m ≤ k) (hkn : k < n)
    (ho : (s k).Older (s (k + 1))) :
    (s (k + 1)).waiters = (s k).waiters ∧ (s (k + 1)).deals = (s k).deals := by
  have hclosed : ∀ i, (s n).Enrolled i → (s k).Enrolled i := fun i hi =>
    (hr.rolls hmk).enrolled i (hx.closed i hi)
  have hd := hr.deeds_of_older ho
  refine ⟨?_, hd.deals⟩
  obtain ⟨kept, fresh, heq, hkept, hfresh⟩ := hd.lists.waiters
  have hnone : fresh = [] := by
    refine List.eq_nil_iff_forall_not_mem.2 fun v hv => hfresh v hv (hclosed v.id ?_)
    have hlisted : v.id ∈ (s (k + 1)).roll :=
      mem_roll_of_mem (heq ▸ List.mem_append_right _ hv) rfl
    exact (hr.rolls hkn).enrolled _ (enrolled_of_roll (hr.attended _) hlisted)
  rw [hnone, List.append_nil] at heq
  rw [heq]
  refine hkept.eq_of_length_le ?_
  have hstays := hx.stays hr hmk hkn hd.deals
  have hlen := (List.Nodup.subperm (roll_nodup (hr.attended k)) hstays).length_le
  rw [roll, roll, List.length_map, List.length_map, heq] at hlen
  exact hlen

/-- How far an exchange has got: what was handed out so far went to the callers in turn. -/
def Underway (cfg : Setup M) (s : Nat → Harness M) (g m k : Nat) : Prop :=
  ∃ handed rest, arrivals s g m k = handed ++ rest ∧
    (s k).callers = (handed.map (·.body)).foldl (leftBy cfg.format) (s m).callers ∧
    (s k).pairs = (s m).pairs ++
      assigned handed (greedy cfg.format (s m).callers (handed.map (·.body))) ∧
    (rest = (s k).inbound g ∨ (s k).waiters = [])

/-- Deliveries are handed out only by the generation that the callers wait for. -/
theorem Exchange.server {g' : Nat} {x : Generation} (hx : Exchange s g m n ds) (hmk : m ≤ k)
    (hkn : k < n) (hserves : (s k).Serves g' d rest x) :
    g' = g ∧ (s k).waiters ≠ [] := by
  have hlisted := ((hr.paired k).awaited _ (List.mem_of_getElem? (lives_of_some hserves.found))
    ((hr.paired k).unfailed_of_routing hserves.found hserves.going).2).2
  refine ⟨?_, hlisted⟩
  obtain ⟨v, hv⟩ := List.exists_mem_of_ne_nil _ hlisted
  have hi := mem_roll_of_mem hv rfl
  have hstill : (s k).current = (s m).current := by
    refine (hr.rolls hmk).current v.id hi (hx.closed v.id ?_)
    exact (hr.rolls (Nat.le_of_lt hkn)).enrolled _ (enrolled_of_roll (hr.attended k) hi)
  rw [hserves.current (hr.paired k), hx.current] at hstill
  exact Option.some.inj hstill

theorem Exchange.underway_step (hx : Exchange s g m n ds) (hmk : m ≤ k) (hkn : k < n)
    (hu : Underway cfg s g m k) : Underway cfg s g m (k + 1) := by
  obtain ⟨handed, rest, harrivals, hcallers, hpairs, hrest⟩ := hu
  rcases (hr.happening k).older_or_handed with
    ho | ⟨g', d, behind, x, deadline, h₁, hserves, _, hdispatched, heq⟩
  · obtain ⟨hwaiters, hdeals⟩ := hx.still hr hmk hkn ho
    obtain ⟨new, hnew⟩ := ho.inbound g
    refine ⟨handed, rest ++ new, ?_, ?_, ?_, ?_⟩
    · rw [arrivals_succ hmk, harrivals, ← hnew, List.drop_left, List.append_assoc]
    · rw [callers, hwaiters]
      exact hcallers
    · rw [pairs_of_deals hdeals, hpairs]
    · rw [hwaiters, ← hnew]
      exact hrest.imp_left fun hrest => by rw [hrest]
  · obtain ⟨rfl, hlisted⟩ := hx.server hr hmk hkn hserves
    obtain ⟨_, hin, _⟩ := (hdispatched.routed hserves).handed
    have hsame : (s (k + 1)).inbound g' = h₁.inbound g' ∧ (s (k + 1)).callers = h₁.callers ∧
        (s (k + 1)).pairs = h₁.pairs := by
      rw [heq]
      split
      · exact ⟨inbound_changeLife, rfl, rfl⟩
      · exact ⟨rfl, rfl, rfl⟩
    obtain ⟨hin', hcallers', hpairs'⟩ := hsame
    obtain ⟨hleft, hassigned⟩ := hdispatched.greedy (roll_nodup (hr.attended k))
    have hwaiting : rest = d :: (s (k + 1)).inbound g' := by
      rw [hrest.resolve_right hlisted, hin, hin']
    refine ⟨handed ++ [d], (s (k + 1)).inbound g', ?_, ?_, ?_, .inl rfl⟩
    · rw [arrivals_succ hmk, harrivals, hwaiting, hin, hin', List.drop_of_length_le (by simp),
        List.append_nil, List.append_assoc]
      rfl
    · rw [hcallers', hleft, hcallers, List.map_append, List.foldl_append]
      rfl
    · have hlen : handed.length =
          (greedy cfg.format (s m).callers (handed.map (·.body))).length := by
        rw [length_greedy, List.length_map]
      rw [hpairs', hassigned, hpairs, List.map_append, greedy_append, assigned_append hlen,
        List.append_assoc, ← hcallers]
      rfl

theorem Exchange.underway (hx : Exchange s g m n ds) (hmk : m ≤ k) (hkn : k ≤ n) :
    Underway cfg s g m k := by
  induction k, hmk using Nat.le_induction with
  | base =>
    refine ⟨[], [], arrivals_self, rfl, (List.append_nil _).symm, .inl hx.before.symm⟩
  | succ k hmk ih => exact hx.underway_step hr hmk hkn (ih (Nat.le_of_lt hkn))

/-- What the generation received was assigned to the callers in turn. -/
theorem Exchange.pairs (hx : Exchange s g m n ds) : (s n).pairs = (s m).pairs ++
    assigned ds (greedy cfg.format (s m).callers (ds.map (·.body))) := by
  obtain ⟨handed, rest, harrivals, hcallers, hpairs, hrest⟩ := hx.underway hr hx.ordered (Nat.le_refl n)
  have hlen : handed.length = (greedy cfg.format (s m).callers (handed.map (·.body))).length := by
    rw [length_greedy, List.length_map]
  rw [hx.received] at harrivals
  rw [hpairs, harrivals, List.map_append, greedy_append, assigned_append hlen, ← hcallers]
  have hnone : assigned rest (greedy cfg.format (s n).callers (rest.map (·.body))) = [] := by
    by_cases hnil : (s n).waiters = []
    · rw [callers, hnil, List.map_nil, greedy_nil, assigned_nobody]
    · rw [hrest.resolve_right hnil, hx.routed.resolve_right hnil]
      rfl
  rw [hnone, List.append_nil]

/-- Each delivery is held by the wait that it was assigned to. -/
theorem Exchange.holder (hx : Exchange s g m n ds) : ds.map (fun d => (s n).holder d.tag) =
    greedy cfg.format (s m).callers (ds.map (·.body)) := by
  obtain ⟨hascend, hwithin⟩ := hr.arrivals_ascend (g := g) hx.ordered
  rw [hx.received] at hascend hwithin
  have hlen : ds.length = (greedy cfg.format (s m).callers (ds.map (·.body))).length := by
    rw [length_greedy, List.length_map]
  have hbooks := (hr.settled m).books
  have hold : ∀ p ∈ (s m).pairs, p.1 ≤ (s m).broker.lastTag := by
    intro p hp
    obtain ⟨x, hx, rfl⟩ := List.mem_map.1 hp
    rw [← hbooks.last]
    exact (hbooks.delivered _ (List.mem_map_of_mem hx)).2
  have hlookup := lookup_assigned (s m).pairs (hascend.imp Nat.ne_of_lt) hlen
    fun d hd => lookup_of_not_mem fun p hp heq => by
      have := hold p hp
      have := (hwithin d.tag (List.mem_map_of_mem hd)).1
      omega
  rw [← hx.pairs hr] at hlookup
  exact hlookup

/-- Whoever was registered claims only what was received since. -/
theorem Exchange.claimed_since (hx : Exchange s g m n ds) {x : Claim M} (hclaim : x ∈ (s n).claims)
    (hroll : x.wait ∈ (s m).roll) : x.tag ∈ ds.map (·.tag) := by
  have hmem : (x.tag, x.wait) ∈ (s n).pairs := List.mem_map_of_mem hclaim
  rw [hx.pairs hr, List.mem_append] at hmem
  rcases hmem with hmem | hmem
  · obtain ⟨y, hy, heq⟩ := List.mem_map.1 hmem
    obtain ⟨_, _, _, _, hfree, _⟩ := (hr.attended m).wait_of_roll hroll
    have hself : y ∈ (s m).claimsOf x.wait :=
      List.mem_filter.2 ⟨hy, beq_iff_eq.2 (congrArg (·.2) heq)⟩
    rw [hfree] at hself
    cases hself
  · exact tag_of_assigned hmem

/-- No tag is claimed twice, and no wait claims twice. -/
theorem Run.claims_apart (n : Nat) :
    ((s n).claims.map (·.tag)).Nodup ∧ ((s n).claims.map (·.wait)).Nodup := by
  have htags : ((s n).claims.map (·.tag)).Nodup := (hr.settled n).books.distinct
  refine ⟨htags, (List.Nodup.of_map _ htags).map_on fun x hx y hy heq => ?_⟩
  exact ((hr.attended n).claim_unique hx hy heq.symm).symm

end

/-- Matching is deterministic. No tag is claimed by two waits, and no wait claims two tags. What a
generation receives for the waits that are registered by then goes to them in turn: each delivery to
the first wait that is left and takes it, and to nobody if it is malformed, if nobody takes it, or
once no wait is left. So it goes to the same waits in any other run, whatever comes of the callbacks
and whenever they end. -/
theorem matching_is_greedy (hr : Run cfg (fun a => a.isForeign = false) s) :
    (∀ k, ((s k).claims.map (·.tag)).Nodup ∧ ((s k).claims.map (·.wait)).Nodup) ∧
    ∀ g m n ds, Exchange s g m n ds →
      ds.map (fun d => (s n).holder d.tag) =
        greedy cfg.format (s m).callers (ds.map (·.body)) ∧
      (∀ x ∈ (s n).claims, x.wait ∈ (s m).roll → x.tag ∈ ds.map (·.tag)) ∧
      ∀ (cfg' : Setup M) (s' : Nat → Harness M) (g' m' n' : Nat) (ds' : List Delivery),
        Run cfg' (fun a => a.isForeign = false) s' → Exchange s' g' m' n' ds' →
        cfg'.format = cfg.format → (s' m').callers = (s m).callers →
        ds'.map (·.body) = ds.map (·.body) →
        ds'.map (fun d => (s' n').holder d.tag) = ds.map fun d => (s n).holder d.tag := by
  refine ⟨hr.claims_apart, fun g m n ds hx => ⟨hx.holder hr, fun x => hx.claimed_since hr, ?_⟩⟩
  intro cfg' s' g' m' n' ds' hr' hx' hformat hcallers hbodies
  rw [hx'.holder hr', hx.holder hr, hformat, hcallers, hbodies]

/-- Two callers wait for a short message and for a long one. Then four bodies are published. -/
def offers : List (Move Bool) :=
  [.act (.call "a short message" fun short => .holds short),
    .act (.call "a long message" fun short => .holds !short), .step (.wait 0), .step (.wait 1),
    .step (.generation 0), .step (.wait 0), .step (.wait 1),
    .act (.publishAll [[], [0, 0], [0], [0]]), .step (.generation 0), .step (.generation 0)]

/-- The next delivery is handed out at once. -/
def offersAtOnce : List (Move Bool) := offers ++ [.step (.generation 0)]

/-- The callback of the last one is over before the next delivery is handed out. -/
def offersInTurn : List (Move Bool) := offers ++ [.step (.claim 0), .step (.callback 0),
  .step (.claim 0), .step (.generation 0), .step (.claim 1)]

theorem enrolled_of_pair {h h' : Harness M} (ha : h.Attended cfg) (hroll : h.roll = [0, 1])
    (hlen : h'.waits.length = 2) (hi : h'.Enrolled i) : h.Enrolled i := by
  obtain ⟨w, hw, _⟩ := hi
  have hlt := (List.getElem?_eq_some_iff.1 hw).1
  obtain rfl | rfl : i = 0 ∨ i = 1 := by omega
  · exact enrolled_of_roll ha (by simp [hroll])
  · exact enrolled_of_roll ha (by simp [hroll])

/-- In one run each callback succeeds, and in the other it fails before the next delivery comes. -/
theorem same_claims_in_two_runs : ∃ s s' : Nat → Harness Bool,
    Run (.terse [] 0) (fun a => a.isForeign = false) s ∧
    Run (.terse [.fail ⟨"refused", []⟩] 2) (fun a => a.isForeign = false) s' ∧
    ((arrivals s 0 7 11).map fun d => (s 11).holder d.tag) = [none, some 1, some 0, none] ∧
    ((arrivals s' 0 7 15).map fun d => (s' 15).holder d.tag) = [none, some 1, some 0, none] := by
  have hr : Run (.terse [] 0) _ (after (.terse [] 0) (initial (.terse [] 0)) offersAtOnce) :=
    run_after rfl
  have hr' : Run (.terse [.fail ⟨"refused", []⟩] 2) _
    (after (.terse [.fail ⟨"refused", []⟩] 2) (initial (.terse [.fail ⟨"refused", []⟩] 2))
      offersInTurn) := run_after rfl
  have hx : Exchange (after (.terse [] 0) (initial (.terse [] 0)) offersAtOnce) 0 7 11
      [⟨1, []⟩, ⟨2, [0, 0]⟩, ⟨3, [0]⟩, ⟨4, [0]⟩] := by
    refine ⟨by decide, rfl, rfl, by decide +kernel, .inr rfl,
      fun i => enrolled_of_pair (hr.attended 7) rfl rfl, rfl, fun i hi w hw => ?_⟩
    obtain rfl | rfl : i = 0 ∨ i = 1 := by simpa using (show i ∈ [0, 1] from hi)
    · cases hw
      exact ⟨nofun, Wait.not_lapsed nofun rfl⟩
    · cases hw
      exact ⟨nofun, Wait.not_lapsed nofun rfl⟩
  have hx' : Exchange (after (.terse [.fail ⟨"refused", []⟩] 2)
      (initial (.terse [.fail ⟨"refused", []⟩] 2)) offersInTurn) 0 7 15
      [⟨1, []⟩, ⟨2, [0, 0]⟩, ⟨3, [0]⟩, ⟨4, [0]⟩] := by
    refine ⟨by decide, rfl, rfl, by decide +kernel, .inr rfl,
      fun i => enrolled_of_pair (hr'.attended 7) rfl rfl, rfl, fun i hi w hw => ?_⟩
    obtain rfl | rfl : i = 0 ∨ i = 1 := by simpa using (show i ∈ [0, 1] from hi)
    · cases hw
      exact ⟨nofun, Wait.not_lapsed nofun rfl⟩
    · cases hw
      refine ⟨nofun, Wait.not_lapsed (fun e he => ?_) rfl⟩
      cases he
      rfl
  obtain ⟨hgreedy, _, hsame⟩ := (matching_is_greedy hr).2 0 7 11 _ hx
  have hsame' := hsame (.terse [.fail ⟨"refused", []⟩] 2) _ 0 7 15 _ hr' hx' rfl rfl rfl
  refine ⟨_, _, hr, hr', ?_, ?_⟩
  · rw [hx.received, hgreedy]
    decide +kernel
  · rw [hx'.received, hsame', hgreedy]
    decide +kernel

end Harness
end Intercept
