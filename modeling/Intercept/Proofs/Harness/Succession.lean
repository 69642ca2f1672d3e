import Intercept.Proofs.Harness.Deliveries

/-! How generations succeed each other at the broker: their consumers never overlap, their ledger
passes come in the order of their creation, and whoever is attached next comes after them. -/
namespace Intercept

section
variable {α : Type} {p : α → Bool} {xs xs' ys ys' : List α} {a a' : α}

/-- An element of two lists put together stands in the first or in the second. -/
theorem append_eq_split (h : xs ++ ys = xs' ++ a :: ys') :
    (∃ zs, xs = xs' ++ a :: zs) ∨ ∃ zs, xs' = xs ++ zs ∧ ys = zs ++ a :: ys' := by
  rcases List.append_eq_append_iff.1 h with ⟨zs, hxs, hys⟩ | ⟨zs, hxs, hys⟩
  · exact .inr ⟨zs, hxs, hys⟩
  · cases zs with
    | nil => exact .inr ⟨[], by rw [hxs, List.append_nil, List.append_nil], hys.symm⟩
    | cons z zs =>
      obtain ⟨rfl, _⟩ := List.cons.inj hys
      exact .inl ⟨zs, hxs⟩

/-- A list is split in one way only at the first element with a property. -/
theorem split_first_unique (h : xs ++ a :: ys = xs' ++ a' :: ys') (ha : p a = true)
    (ha' : p a' = true) (hxs : ∀ b ∈ xs, p b = false) (hxs' : ∀ b ∈ xs', p b = false) :
    xs = xs' ∧ a = a' := by
  induction xs generalizing xs' with
  | nil =>
    cases xs' with
    | nil => exact ⟨rfl, (List.cons.inj h).1⟩
    | cons b rest =>
      have hb := hxs' b (List.mem_cons_self ..)
      rw [← (List.cons.inj h).1, ha] at hb
      cases hb
  | cons b rest ih =>
    cases xs' with
    | nil =>
      have hb := hxs b (List.mem_cons_self ..)
      rw [(List.cons.inj h).1, ha'] at hb
      cases hb
    | cons b' rest' =>
      obtain ⟨rfl, hrest⟩ := List.cons.inj h
      obtain ⟨rfl, rfl⟩ := ih hrest (fun c hc => hxs c (List.mem_cons_of_mem _ hc))
        fun c hc => hxs' c (List.mem_cons_of_mem _ hc)
      exact ⟨rfl, rfl⟩

end

namespace Harness
variable {M : Type} {cfg : Setup M} {h h' h₁ : Harness M} {s : Nat → Harness M}
  {a b c f f' g g' i j k m n : Nat} {allowed : Act M → Prop}

/-! What a move does to the channel. -/

/-- Nobody is attached, detached or confirmed. -/
structure Undisturbed (h h' : Harness M) : Prop where
  log : ∃ tail, h'.broker.operations = h.broker.operations ++ tail ∧
    ∀ op ∈ tail, op.isStart = false
  completed : ∀ k, h'.Completed k ↔ h.Completed k
  unfailed : h'.failure = none → h.failure = none ∧
    h'.broker.consumers = h.broker.consumers ∧ h'.broker.held = h.broker.held

/-- The broker attaches a consumer while the channel is free. -/
structure Attaches (h h' : Harness M) (c : Consumer Nat) : Prop where
  free : h.broker.consumers = [] ∧ h.broker.held = []
  recorded : h'.broker.operations = h.broker.operations ++ [.start c.tag c.priority]
  attached : h'.broker.consumers = [c] ∧ h'.broker.held = []

/-- The broker holds back the cancel of its consumer. -/
structure Withholds (h h' : Harness M) (c : Consumer Nat) : Prop where
  attached : h.broker.consumers = [c]
  recorded : h'.broker.operations = h.broker.operations ++ [.cancel c.tag]
  held : h'.broker.consumers = [] ∧ h'.broker.held = [c]

/-- What a move does to the channel. -/
inductive Channelled (cfg : Setup M) (h h' : Harness M) : Prop
  | apart : h.Undisturbed h' → Channelled cfg h h'
  | attached (c : Consumer Nat) : h.failure = none → h.Live c.sink → h.Attaches h' c →
    (∀ k, h'.Completed k ↔ h.Completed k) → Channelled cfg h h'
  | withheld (c : Consumer Nat) : h.failure = none → h.Withholds h' c →
    (∀ k, h'.Completed k ↔ h.Completed k) → Channelled cfg h h'
  | passed (g : Nat) : h.Passes cfg g h' → Channelled cfg h h'

theorem Undisturbed.of_silent (ht : h.Tidy h') (hs : h.Silent h') : h.Undisturbed h' where
  log := by
    obtain ⟨tail, hlog, htail⟩ := hs.log
    exact ⟨tail, hlog, fun op hop => by rw [htail op hop]; rfl⟩
  completed := ht.completed
  unfailed := fun hf => by
    obtain ⟨hf, hb⟩ := hs.unfailed hf
    simp only [Broker.account, Prod.mk.injEq] at hb
    exact ⟨hf, hb.2.1, hb.2.2.2.2.2.2.1⟩

theorem Undisturbed.trans (hu : h.Undisturbed h₁) (hu' : h₁.Undisturbed h') :
    h.Undisturbed h' where
  log := by
    obtain ⟨tail, hlog, htail⟩ := hu.log
    obtain ⟨tail', hlog', htail'⟩ := hu'.log
    refine ⟨tail ++ tail', by rw [hlog', hlog, List.append_assoc], fun op hop => ?_⟩
    exact (List.mem_append.1 hop).elim (htail op) (htail' op)
  completed := fun k => (hu'.completed k).trans (hu.completed k)
  unfailed := fun hf => by
    obtain ⟨hf₁, hc', hh'⟩ := hu'.unfailed hf
    obtain ⟨hf, hc, hh⟩ := hu.unfailed hf₁
    exact ⟨hf, hc'.trans hc, hh'.trans hh⟩

/-- A move whose first part says all that the channel is asked for. -/
theorem Undisturbed.of_log {tail : List Operation}
    (hlog : h'.broker.operations = h.broker.operations ++ tail)
    (htail : ∀ op ∈ tail, op.isStart = false) (hcompleted : ∀ k, h'.Completed k ↔ h.Completed k)
    (hf : h'.failure = h.failure) (hc : h'.broker.consumers = h.broker.consumers)
    (hh : h'.broker.held = h.broker.held) : h.Undisturbed h' :=
  ⟨⟨tail, hlog, htail⟩, hcompleted, fun hnone => ⟨hf ▸ hnone, hc, hh⟩⟩

theorem completed_of_lives (hl : h'.lives = h.lives) (k : Nat) :
    h'.Completed k ↔ h.Completed k := by
  rw [Completed, Completed, life_eq, life_eq, hl]

theorem undisturbed_publish {body : Body} : h.Undisturbed (h.publish body).1 := by
  rw [Harness.publish, Broker.publish]
  cases Broker.preferred h.broker.consumers with
  | none => exact .of_log (List.append_nil _).symm (by simp) (fun _ => Iff.rfl) rfl rfl rfl
  | some c =>
    refine .of_log (List.append_nil _).symm (by simp) (completed_of_lives ?_) rfl rfl rfl
    exact lives_changeGeneration fun _ => rfl

theorem undisturbed_publishAll {bodies : List Body} :
    h.Undisturbed (h.publishAll bodies).1 := by
  induction bodies generalizing h with
  | nil => exact .of_log (List.append_nil _).symm nofun (fun _ => Iff.rfl) rfl rfl rfl
  | cons body rest ih => exact undisturbed_publish.trans ih

theorem Routed.undisturbed {d : Delivery} (hr : h.Routed cfg g d h') : h.Undisturbed h' := by
  cases hr with
  | unclaimed rest y deadline _ =>
    refine .of_log (List.append_nil _).symm nofun (completed_of_lives ?_) rfl rfl rfl
    exact lives_changeGeneration fun _ => rfl
  | claimed rest y m before v behind _ _ _ _ =>
    refine .of_log (List.append_nil _).symm nofun (completed_of_lives ?_) rfl rfl rfl
    exact lives_changeGeneration fun _ => rfl

theorem undisturbed_answered {x : Claim M} {result : Except Failure Unit} {outcome : Outcome M}
    {broker : Broker Nat} {ledger : Ledger} {ends : Bool}
    (hs : x.Settling h.Over h.broker h.ledger result broker ledger ends) :
    h.Undisturbed (h.answered c x outcome broker ledger) := by
  have hsame : ∀ k, (h.answered c x outcome broker ledger).Completed k ↔ h.Completed k :=
    fun _ => Iff.rfl
  cases hs with
  | acked b' l' _ _ hset _ _ hops =>
    exact .of_log hops (fun op hop => by rw [List.mem_singleton.1 hop]; rfl) hsame rfl
      hset.consumers hset.held
  | rejected failure b' l' _ _ _ hset _ _ hops =>
    exact .of_log hops (fun op hop => by rw [List.mem_singleton.1 hop]; rfl) hsame rfl
      hset.consumers hset.held
  | lost => exact .of_log (List.append_nil _).symm nofun hsame rfl rfl rfl
  | dropped failure l' _ _ => exact .of_log (List.append_nil _).symm nofun hsame rfl rfl rfl
  | deferred failure l' _ _ => exact .of_log (List.append_nil _).symm nofun hsame rfl rfl rfl

theorem Entry.channelled (he : h.Entry cfg h') (ha : h.Attended cfg) (hp : h.Paired) :
    h.Channelled cfg h' := by
  cases he with
  | quiet hd =>
    obtain ⟨htidy, hsilent⟩ := Deeds.tidy ha hd
    exact .apart (.of_silent htidy hsilent)
  | published bodies => exact .apart undisturbed_publishAll
  | routed g d h₁ hr hd _ _ =>
    obtain ⟨htidy, hsilent⟩ := Deeds.tidy (ha.routed hp hr) hd
    exact .apart (hr.undisturbed.trans (.of_silent htidy hsilent))
  | attached g c hf hl hc hh htidy hsink hops hc' hh' =>
    subst hsink
    exact .attached c hf hl ⟨⟨hc, hh⟩, hops, hc', hh'⟩ htidy.completed
  | withheld g c hf _ htidy hc _ hops hc' hh' =>
    exact .withheld c hf ⟨hc, hops, hc', hh'⟩ htidy.completed
  | concluded c x result outcome broker ledger ends _ _ hsettling hmid hd _ =>
    obtain ⟨htidy, hsilent⟩ := Deeds.tidy hmid hd
    exact .apart ((undisturbed_answered hsettling).trans (.of_silent htidy hsilent))
  | passed g hpass _ => exact .passed g hpass

theorem Run.channelled (hr : Run cfg (fun a => a.isForeign = false) s) (n : Nat) :
    (s n).Channelled cfg (s (n + 1)) :=
  (hr.entry n).channelled (hr.attended n) (hr.paired n)

/-! At most one consumer. -/

theorem Settled.single (hi : h.Settled) :
    (h.broker.consumers ++ h.broker.held).length ≤ 1 := by
  by_cases hf : h.failure = none
  · obtain ⟨f, hl⟩ := hi.live hf
    rcases hl.single with ⟨hc, hh⟩ | ⟨c, ⟨hc, hh⟩ | ⟨hc, hh⟩⟩ <;> rw [hc, hh] <;> simp
  · obtain ⟨_, hc, hh⟩ := hi.released (hi.disposed hf)
    rw [hc, hh]
    exact Nat.zero_le _

/-! Passes come in the order of creation. -/

/-- What has handed its messages back is over, and so is all that was created before it. -/
def Ranked (h : Harness M) : Prop := ∀ k, h.Completed k → ∀ j ≤ k, h.Gone j

theorem Live.eq_of_live (hl : h.Live f) (hl' : h.Live f') : f = f' := by
  have key : ∀ {f f' : Nat}, h.Live f → h.Live f' → ¬ f < f' := by
    intro f f' hl hl' hlt
    have hle := hl'.lineup.le
    have hx : h.generations[f]? = some _ := List.getElem?_eq_getElem (by omega)
    exact (hl.lineup.ahead f _ hx (Nat.le_refl _)).2 (hl'.lineup.past f _ hx hlt).2
  have := key hl hl'
  have := key hl' hl
  omega

theorem Live.gone_past (hl : h.Live f) (hlt : g < f) : h.Gone g := by
  have hle := hl.lineup.le
  have hx : h.generations[g]? = some _ := List.getElem?_eq_getElem (by omega)
  exact ⟨_, hx, (hl.lineup.past g _ hx hlt).1⟩

theorem Live.completed_past (hl : h.Live f) (ho : h.Orderly) (hlt : g < f) : h.Completed g := by
  have hle := hl.lineup.le
  have hx : h.generations[g]? = some _ := List.getElem?_eq_getElem (by omega)
  have hlife := lives_of_some hx
  rw [Completed, life_of_some hlife]
  exact (ho.signalled _ (List.mem_of_getElem? hlife)).complete (hl.lineup.past g _ hx hlt).2

/-- Whatever has handed its messages back stands before the front. -/
theorem Live.lt_of_completed (hl : h.Live f) (hc : h.Completed g) : g < f := by
  apply Nat.lt_of_not_le
  intro hle
  cases hx : h.generations[g]? with
  | none =>
    rw [Completed, life, hx] at hc
    cases hc
  | some x =>
    have hpending := (hl.lineup.ahead g x hx hle).1
    rw [Completed, life_of_some (lives_of_some hx), hpending] at hc
    cases hc

/-- After a failure of the harness only a generation that has not subscribed runs a pass, and it
waits for nobody any more. -/
theorem Passes.admitted (hpass : h.Passes cfg g h') (hi : h.Settled) (hf : h.failure ≠ none) :
    ∃ x, h.generations[g]? = some x ∧ h.Admitted x ∧ x.stage ≠ .ended := by
  cases hpass with
  | abandoned x hx hadmitted _ =>
    refine ⟨x, hx, hadmitted, ?_⟩
    rcases hadmitted with hst | ⟨_, _, hst, _⟩ <;> rw [hst] <;> nofun
  | left _ _ _ c _ _ _ _ hc _ =>
    exact (hf (hi.unfailed_of_channel (.inl (by simp [hc]))).1).elim
  | released c hheld _ => exact (hf (hi.unfailed_of_channel (.inr (by simp [hheld]))).1).elim

/-- All that was created before is over when a generation runs its pass. -/
theorem Passes.gone_before (hpass : h.Passes cfg g h') (hi : h.Settled) (ho : h.Orderly)
    (hranked : h.Ranked) (hlt : j < g) : h.Gone j := by
  by_cases hf : h.failure = none
  · exact (hpass.live hi hf).gone_past hlt
  · obtain ⟨x, hx, hadmitted, _⟩ := hpass.admitted hi hf
    rcases hadmitted with hst | ⟨p, d, hst, hdone⟩
    · have := ho.first g x hx hst
      omega
    · have := ho.follows g x p hx (.inr ⟨d, hst⟩)
      exact hranked p hdone j (by omega)

theorem Ranked.of_completed (hranked : h.Ranked) (hgrows : h.Grows h')
    (hc : ∀ k, h'.Completed k → h.Completed k) : h'.Ranked :=
  fun k hk j hj => hgrows.gone (hranked k (hc k hk) j hj)

theorem Run.ranked (hr : Run cfg (fun a => a.isForeign = false) s) (n : Nat) :
    (s n).Ranked := by
  induction n with
  | zero =>
    rw [hr.start]
    intro k hk
    cases hk
  | succ n ih =>
    have hgrows := hr.grows (Nat.le_succ n)
    cases hr.channelled n with
    | apart hu => exact ih.of_completed hgrows fun k => (hu.completed k).1
    | attached c _ _ _ hc => exact ih.of_completed hgrows fun k => (hc k).1
    | withheld c _ _ hc => exact ih.of_completed hgrows fun k => (hc k).1
    | passed g hpass =>
      obtain ⟨_, _, _, hpassed⟩ := hr.passed hpass
      intro k hk j hj
      by_cases hkg : k = g
      · subst hkg
        rcases Nat.lt_or_eq_of_le hj with hlt | rfl
        · exact hgrows.gone (hpass.gone_before (hr.settled n) (hr.attended n).toOrderly ih hlt)
        · exact hpassed.gone
      · exact hgrows.gone (ih k ((hpassed.completed k hkg).1 hk) j hj)

/-- Two passes come in the order in which their generations were created. -/
theorem Run.passes_ascend (hr : Run cfg (fun a => a.isForeign = false) s)
    (hk : (s k).Passes cfg g (s (k + 1))) (hm : (s m).Passes cfg g' (s (m + 1))) (hlt : k < m) :
    g < g' := by
  obtain ⟨_, _, _, hpassed⟩ := hr.passed hk
  apply Nat.lt_of_not_le
  intro hle
  by_cases hf : (s m).failure = none
  · -- The earlier one has handed its messages back, and stands before the front.
    have hcompleted := (hr.grows hlt).completed (hpassed.unfailed (hr.unfailed_of_le hlt hf)).2.1
    have := (hm.live (hr.settled m) hf).lt_of_completed hcompleted
    omega
  · obtain ⟨x, hx, _, hgoing⟩ := hm.admitted (hr.settled m) hf
    have hgone : (s m).Gone g' := by
      rcases Nat.lt_or_eq_of_le hle with hlt' | rfl
      · exact (hr.grows (Nat.le_of_lt hlt)).gone (hk.gone_before (hr.settled k)
          (hr.attended k).toOrderly (hr.ranked k) hlt')
      · exact (hr.grows hlt).gone hpassed.gone
    obtain ⟨y, hy, hended⟩ := hgone
    rw [hx] at hy
    cases hy
    exact hgoing hended

/-- It is only one generation that runs its pass. -/
theorem Run.passes_single (hr : Run cfg (fun a => a.isForeign = false) s)
    (hg : (s k).Passes cfg g (s (k + 1))) (hg' : (s k).Passes cfg g' (s (k + 1))) : g = g' := by
  have hi := hr.settled k
  have ho := (hr.attended k).toOrderly
  by_cases hf : (s k).failure = none
  · exact (hg.live hi hf).eq_of_live (hg'.live hi hf)
  · have key : ∀ {g g' : Nat}, (s k).Passes cfg g (s (k + 1)) →
        (s k).Passes cfg g' (s (k + 1)) → ¬ g < g' := by
      intro g g' hg hg' hlt
      obtain ⟨x, hx, hgone⟩ := hg'.gone_before hi ho (hr.ranked k) hlt
      obtain ⟨y, hy, _, hgoing⟩ := hg.admitted hi hf
      rw [hx] at hy
      cases hy
      exact hgoing hgone
    have := key hg hg'
    have := key hg' hg
    omega

/-! Whose deliveries are claimed. -/

/-- Nothing is claimed for a generation that was stopped. -/
theorem Run.claimed_before_stop {x : Claim M} (hr : Run cfg allowed s)
    (hstop : ((s m).life x.generation).stopRequested = true)
    (hx : (s n).claims[c]? = some x) : c < (s m).claims.length := by
  obtain ⟨k, hk, ⟨d, htakes⟩, hlen, hafter⟩ := hr.taken hx
  by_cases hkm : k < m
  · have hdeal := hr.deal_of_le hkm hafter
    have hlt := (List.getElem?_eq_some_iff.1 hdeal).1
    rw [deals, List.length_map] at hlt
    exact hlt
  · obtain ⟨rest, y, hserves⟩ := htakes.serves
    cases hz : (s m).generations[x.generation]? with
    | none =>
      rw [life, hz] at hstop
      cases hstop
    | some z =>
      rw [life_of_some (lives_of_some hz)] at hstop
      obtain ⟨z', hz', hlife, _⟩ := hr.grows (Nat.le_of_not_lt hkm) _ z hz
      rw [hserves.found] at hz'
      cases hz'
      exact (hserves.going (hlife.stopped hstop)).elim

/-- A waiter only takes deliveries of the generation that it was registered for. -/
theorem Run.claimed_of_starting {x : Claim M} {w : Wait M} (hr : Run cfg allowed s)
    (hw : (s m).waits[i]? = some w) (hstart : w.stage = .starting g)
    (hx : (s n).claims[c]? = some x) (hi : x.wait = i) : x.generation = g := by
  obtain ⟨k, hk, ⟨d, htakes⟩, _, hafter⟩ := hr.taken hx
  have hplace := (hr.attended m).placed i w hw
  by_cases hkm : k < m
  · obtain ⟨y, hy, heq⟩ := claim_of_deal (hr.deal_of_le hkm hafter)
    obtain ⟨_, hwait, hgeneration, _⟩ := Claim.deal_eq_iff.1 heq
    have hmem : y ∈ (s m).claimsOf i :=
      List.mem_filter.2 ⟨List.mem_of_getElem? hy, beq_iff_eq.2 (hwait.trans hi)⟩
    cases hplace with
    | claimed z _ hz hb =>
      rw [hz, List.mem_singleton] at hmem
      subst hmem
      rw [← hgeneration, (hb.starting g hstart).1]
    | calling _ hnone _ _ | listed _ _ _ hnone _ _ _ _ | apart _ hnone _ _ _ =>
      rw [hnone] at hmem
      cases hmem
  · obtain ⟨before, v, behind, hlisted, hv, _⟩ := htakes.listed
    obtain ⟨rest, y, hserves⟩ := htakes.serves
    have henrolled : (s m).Enrolled i := ⟨w, hw, by rw [hstart]; nofun⟩
    have hrolls := hr.rolls (Nat.le_of_not_lt hkm)
    have hroll : i ∈ (s k).roll := by
      rw [roll, hlisted]
      simp [hv, hi]
    have hcurrent := hrolls.current i hroll henrolled
    rw [hserves.current (hr.paired k)] at hcurrent
    have hlistedm := mem_roll.1 (hrolls.roll.mem hroll henrolled)
    cases hplace with
    | listed _ g' _ _ _ _ hg' hst =>
      rw [hg'] at hcurrent
      obtain rfl := Option.some.inj hcurrent
      rcases hst with hst | ⟨hst, _⟩
      · rw [hstart] at hst
        cases hst
        rfl
      · rw [hstart] at hst
        cases hst
    | calling hnone _ _ _ | claimed _ hnone _ _ | apart hnone _ _ _ _ =>
      exact (hlistedm hnone).elim

/-! From one subscription to the next. -/

/-- Between two moments the generation runs its pass, which that part of the log records. -/
def PassedWithin (cfg : Setup M) (s : Nat → Harness M) (k n j : Nat) (log : List Operation) : Prop :=
  ∃ m, k < m ∧ m < n ∧ (s m).Passes cfg j (s (m + 1)) ∧
    ∃ before after, log = before ++ (s m).ledger.plan.operations ++ after

/-- At that moment the generation of a consumer runs its pass. The log records the cancel of the
consumer, the rejects of the pass, and the confirmation of the cancel. -/
def Yields (cfg : Setup M) (s : Nat → Harness M) (c : Consumer Nat) (k : Nat)
    (log after : List Operation) : Prop :=
  (s k).Passes cfg c.sink (s (k + 1)) ∧ ∃ before between,
    log = before ++ .cancel c.tag ::
      (between ++ (s k).ledger.plan.operations ++ .cancelConfirmed c.tag :: after)

/-- How a consumer stands that was attached at some moment, and the log since then, as long as
nobody is attached after it. -/
inductive Since (cfg : Setup M) (s : Nat → Harness M) (a : Nat) (c : Consumer Nat) (n : Nat) :
    List Operation → Prop
  | attached (log : List Operation) : (s n).broker.consumers = [c] → (s n).broker.held = [] →
    Since cfg s a c n log
  | withheld (before after : List Operation) : (s n).broker.consumers = [] →
    (s n).broker.held = [c] → Since cfg s a c n (before ++ .cancel c.tag :: after)
  | yielded (k : Nat) (log after : List Operation) : a < k → k < n → Yields cfg s c k log after →
    (s n).broker.consumers = [] → (s n).broker.held = [] → (s n).Completed c.sink →
    (∀ j, c.sink < j → (s n).Completed j → PassedWithin cfg s k n j after) → Since cfg s a c n log
  | failed (log : List Operation) : (s n).failure ≠ none → Since cfg s a c n log

/-- The next consumer is attached after the generation of the first has run its pass, and so have
all that were created in between. -/
structure Succeeds (cfg : Setup M) (s : Nat → Harness M) (a b : Nat) (c c' : Consumer Nat)
    (log : List Operation) : Prop where
  attached : (s b).Attaches (s (b + 1)) c'
  later : c.sink < c'.sink
  yields : ∃ k after, a < k ∧ k < b ∧ Yields cfg s c k log after ∧
    ∀ j, c.sink < j → j < c'.sink → PassedWithin cfg s k b j after

/-! Who is attached or has its cancel held back tells how a pass is recorded. -/

section
variable {c : Consumer Nat} {before after : List Operation}

theorem Recorded.of_attached (hrec : h.Recorded g before after) (hc : h.broker.consumers = [c])
    (hh : h.broker.held = []) :
    c.sink = g ∧ before = [.cancel c.tag] ∧ after = [.cancelConfirmed c.tag] := by
  cases hrec with
  | abandoned hnone _ => simp [hc] at hnone
  | released _ hheld _ => simp [hh] at hheld
  | left c' hc' hsink =>
    cases hc.symm.trans hc'
    exact ⟨hsink, rfl, rfl⟩

theorem Recorded.of_withheld (hrec : h.Recorded g before after) (hc : h.broker.consumers = [])
    (hh : h.broker.held = [c]) : c.sink = g ∧ before = [] ∧ after = [.cancelConfirmed c.tag] := by
  cases hrec with
  | abandoned _ hnone => simp [hh] at hnone
  | left _ hc' _ => simp [hc] at hc'
  | released c' hheld hsink =>
    cases hh.symm.trans hheld
    exact ⟨hsink, rfl, rfl⟩

theorem Recorded.of_free (hrec : h.Recorded g before after) (hc : h.broker.consumers = [])
    (hh : h.broker.held = []) : before = [] ∧ after = [] := by
  cases hrec with
  | abandoned _ _ => exact ⟨rfl, rfl⟩
  | left _ hc' _ => simp [hc] at hc'
  | released _ hheld _ => simp [hh] at hheld

end

theorem PassedWithin.extend {log tail : List Operation} (hp : PassedWithin cfg s k n j log) :
    PassedWithin cfg s k (n + 1) j (log ++ tail) := by
  obtain ⟨m, hkm, hmn, hpass, before, after, rfl⟩ := hp
  exact ⟨m, hkm, by omega, hpass, before, after ++ tail, by simp⟩

theorem Yields.extend {c : Consumer Nat} {log after tail : List Operation}
    (hy : Yields cfg s c k log after) : Yields cfg s c k (log ++ tail) (after ++ tail) := by
  obtain ⟨hpass, before, between, rfl⟩ := hy
  exact ⟨hpass, before, between, by simp⟩

section
variable {c c' : Consumer Nat} {log : List Operation}
  (hr : Run cfg (fun a => a.isForeign = false) s)
include hr

/-- A pass is entered into the log of the consumer that was attached last. -/
theorem Run.since_pass (hs : Since cfg s a c n log) (ha : a < n)
    (hpass : (s n).Passes cfg g (s (n + 1))) :
    ∃ tail, (s (n + 1)).broker.operations = (s n).broker.operations ++ tail ∧
      (∀ op ∈ tail, op.isStart = false) ∧ Since cfg s a c (n + 1) (log ++ tail) := by
  obtain ⟨before, after, hrecorded, hpassed⟩ := hr.passed hpass
  obtain ⟨tail, hlog, hops, hall⟩ := hpassed.log
  refine ⟨tail, hlog, fun op hop => (hops op hop).1, ?_⟩
  by_cases hf : (s (n + 1)).failure = none
  · obtain ⟨hfn, hcompleted, hconsumers, hheld, _⟩ := hpassed.unfailed hf
    have hlive := hpass.live (hr.settled n) hfn
    have hlater : ∀ j, g < j → ¬ (s (n + 1)).Completed j := by
      intro j hj hcj
      have := hlive.lt_of_completed ((hpassed.completed j (by omega)).1 hcj)
      omega
    rw [hall hf]
    cases hs with
    | attached _ hc hh =>
      obtain ⟨rfl, rfl, rfl⟩ := hrecorded.of_attached hc hh
      refine .yielded n _ [] ha (Nat.lt_succ_self n) ⟨hpass, log, [], ?_⟩ hconsumers hheld
        hcompleted fun j hj hcj => (hlater j hj hcj).elim
      simp
    | withheld before₀ after₀ hc hh =>
      obtain ⟨rfl, rfl, rfl⟩ := hrecorded.of_withheld hc hh
      refine .yielded n _ [] ha (Nat.lt_succ_self n) ⟨hpass, before₀, after₀, ?_⟩ hconsumers hheld
        hcompleted fun j hj hcj => (hlater j hj hcj).elim
      simp
    | yielded k _ after₀ hak hkn hy hc hh hdone hothers =>
      obtain ⟨rfl, rfl⟩ := hrecorded.of_free hc hh
      rw [List.nil_append, List.append_nil]
      refine .yielded k _ _ hak (by omega) hy.extend hconsumers hheld
        ((hr.grows (Nat.le_succ n)).completed hdone) fun j hj hcj => ?_
      by_cases hjg : j = g
      · subst hjg
        exact ⟨n, hkn, Nat.lt_succ_self n, hpass, after₀, [], (List.append_nil _).symm⟩
      · exact (hothers j hj ((hpassed.completed j hjg).1 hcj)).extend
    | failed _ hne => exact (hne hfn).elim
  · exact .failed _ hf

/-- Until the next consumer is attached, the log tells how this one stands. -/
theorem Run.since_step (hs : Since cfg s a c n log) (ha : a < n) :
    (∃ tail, (s (n + 1)).broker.operations = (s n).broker.operations ++ tail ∧
      (∀ op ∈ tail, op.isStart = false) ∧ Since cfg s a c (n + 1) (log ++ tail)) ∨
    ∃ c', Succeeds cfg s a n c c' log := by
  cases hr.channelled n with
  | passed g hpass => exact .inl (hr.since_pass hs ha hpass)
  | apart hu =>
    obtain ⟨tail, hlog, htail⟩ := hu.log
    refine .inl ⟨tail, hlog, htail, ?_⟩
    by_cases hf : (s (n + 1)).failure = none
    · obtain ⟨hfn, hc', hh'⟩ := hu.unfailed hf
      cases hs with
      | attached _ hc hh => exact .attached _ (hc'.trans hc) (hh'.trans hh)
      | withheld before after hc hh =>
        rw [List.append_assoc, List.cons_append]
        exact .withheld _ _ (hc'.trans hc) (hh'.trans hh)
      | yielded k _ after hak hkn hy hc hh hdone hothers =>
        refine .yielded k _ _ hak (by omega) hy.extend (hc'.trans hc) (hh'.trans hh)
          ((hu.completed _).2 hdone) fun j hj hcj => ?_
        exact (hothers j hj ((hu.completed j).1 hcj)).extend
      | failed _ hne => exact (hne hfn).elim
    · exact .failed _ hf
  | withheld c' hf hw _ =>
    refine .inl ⟨[.cancel c'.tag], hw.recorded, fun op hop => by rw [List.mem_singleton.1 hop]; rfl,
      ?_⟩
    have hattached := hw.attached
    cases hs with
    | attached _ hc hh =>
      rw [hc] at hattached
      cases hattached
      exact .withheld log [] hw.held.1 hw.held.2
    | withheld _ _ hc _ | yielded _ _ _ _ _ _ hc _ _ _ =>
      rw [hc] at hattached
      cases hattached
    | failed _ hne => exact (hne hf).elim
  | attached c' hf hl hattaches _ =>
    obtain ⟨hfree, hfree'⟩ := hattaches.free
    cases hs with
    | attached _ hc _ =>
      rw [hc] at hfree
      cases hfree
    | withheld _ _ _ hh =>
      rw [hh] at hfree'
      cases hfree'
    | failed _ hne => exact (hne hf).elim
    | yielded k _ after hak hkn hy _ _ hdone hothers =>
      refine .inr ⟨c', hattaches, hl.lt_of_completed hdone, k, after, hak, hkn, hy,
        fun j hj hjc => ?_⟩
      exact hothers j hj (hl.completed_past (hr.attended n).toOrderly hjc)

theorem Run.log_of_le (hle : m ≤ n) :
    ∃ tail, (s n).broker.operations = (s m).broker.operations ++ tail := by
  induction n, hle using Nat.le_induction with
  | base => exact ⟨[], (List.append_nil _).symm⟩
  | succ n _ ih =>
    obtain ⟨tail, hlog⟩ := ih
    have hnext : ∃ tail, (s (n + 1)).broker.operations = (s n).broker.operations ++ tail := by
      cases hr.channelled n with
      | apart hu =>
        obtain ⟨tail, hlog, _⟩ := hu.log
        exact ⟨tail, hlog⟩
      | attached c _ _ hat _ => exact ⟨_, hat.recorded⟩
      | withheld c _ hw _ => exact ⟨_, hw.recorded⟩
      | passed g hpass =>
        obtain ⟨_, _, _, hpassed⟩ := hr.passed hpass
        obtain ⟨tail, hlog, _⟩ := hpassed.log
        exact ⟨tail, hlog⟩
    obtain ⟨tail', hlog'⟩ := hnext
    exact ⟨tail ++ tail', by rw [hlog', hlog, List.append_assoc]⟩

/-- Once a consumer was attached, nobody else is, or the next one came after it in good order. -/
theorem Run.since (ha : (s a).Attaches (s (a + 1)) c) (hlt : a < n) :
    (∃ log, (s n).broker.operations = (s (a + 1)).broker.operations ++ log ∧
      (∀ op ∈ log, op.isStart = false) ∧ Since cfg s a c n log) ∨
    ∃ b c' log, a < b ∧ b < n ∧
      (s b).broker.operations = (s (a + 1)).broker.operations ++ log ∧
      (∀ op ∈ log, op.isStart = false) ∧ Succeeds cfg s a b c c' log := by
  induction n, hlt using Nat.le_induction with
  | base =>
    exact .inl ⟨[], (List.append_nil _).symm, nofun, .attached _ ha.attached.1 ha.attached.2⟩
  | succ n hlt ih =>
    rcases ih with ⟨log, hlog, hnone, hsince⟩ | ⟨b, c', log, hab, hbn, hrest⟩
    · rcases hr.since_step hsince hlt with ⟨tail, htail, hnone', hsince'⟩ | ⟨c', hsucceeds⟩
      · refine .inl ⟨log ++ tail, by rw [htail, hlog, List.append_assoc], fun op hop => ?_, hsince'⟩
        exact (List.mem_append.1 hop).elim (hnone op) (hnone' op)
      · exact .inr ⟨n, c', log, hlt, Nat.lt_succ_self n, hlog, hnone, hsucceeds⟩
    · exact .inr ⟨b, c', log, hab, by omega, hrest⟩

/-- Each subscription in the log was recorded as a consumer was attached. -/
theorem Run.attached {before after : List Operation} {tag : String} {priority : Int}
    (hlog : (s n).broker.operations = before ++ .start tag priority :: after) :
    ∃ a < n, ∃ c, (s a).Attaches (s (a + 1)) c ∧ (s a).broker.operations = before ∧
      c.tag = tag ∧ c.priority = priority := by
  induction n generalizing after with
  | zero =>
    rw [hr.start] at hlog
    cases before <;> cases hlog
  | succ n ih =>
    have hquiet : ∀ {tail : List Operation},
        (s (n + 1)).broker.operations = (s n).broker.operations ++ tail →
        (∀ op ∈ tail, op.isStart = false) → ∃ a < n + 1, ∃ c, (s a).Attaches (s (a + 1)) c ∧
          (s a).broker.operations = before ∧ c.tag = tag ∧ c.priority = priority := by
      intro tail htail hnone
      rw [htail] at hlog
      rcases append_eq_split hlog with ⟨zs, hearlier⟩ | ⟨zs, _, hlater⟩
      · obtain ⟨a, ha, hrest⟩ := ih hearlier
        exact ⟨a, by omega, hrest⟩
      · have hstart := hnone (.start tag priority) (by rw [hlater]; simp)
        cases hstart
    cases hr.channelled n with
    | apart hu =>
      obtain ⟨tail, htail, hnone⟩ := hu.log
      exact hquiet htail hnone
    | withheld c _ hw _ =>
      exact hquiet hw.recorded fun op hop => by rw [List.mem_singleton.1 hop]; rfl
    | passed g hpass =>
      obtain ⟨_, _, _, hpassed⟩ := hr.passed hpass
      obtain ⟨tail, htail, hnone, _⟩ := hpassed.log
      exact hquiet htail fun op hop => (hnone op hop).1
    | attached c _ _ hat _ =>
      rw [hat.recorded] at hlog
      rcases append_eq_split hlog with ⟨zs, hearlier⟩ | ⟨zs, hbefore, hlater⟩
      · obtain ⟨a, ha, hrest⟩ := ih hearlier
        exact ⟨a, by omega, hrest⟩
      · cases zs with
        | nil =>
          obtain ⟨hstart, _⟩ := List.cons.inj hlater
          cases hstart
          refine ⟨n, Nat.lt_succ_self n, c, hat, ?_, rfl, rfl⟩
          rw [hbefore, List.append_nil]
        | cons z zs =>
          have hlen := congrArg List.length hlater
          simp at hlen

/-- Two subscriptions that follow each other in the log. -/
theorem Run.succeeds {before between after : List Operation} {tag tag' : String}
    {priority priority' : Int}
    (hlog : (s n).broker.operations =
      before ++ .start tag priority :: (between ++ .start tag' priority' :: after))
    (hnone : ∀ op ∈ between, op.isStart = false) :
    ∃ a b c c', a < b ∧ b < n ∧ (s a).Attaches (s (a + 1)) c ∧ c.tag = tag ∧
      c.priority = priority ∧ c'.tag = tag' ∧ c'.priority = priority' ∧
      (s a).broker.operations = before ∧
      (s b).broker.operations = before ++ .start tag priority :: between ∧
      Succeeds cfg s a b c c' between := by
  obtain ⟨a, han, c, hattaches, hbefore, rfl, rfl⟩ := hr.attached hlog
  have hfirst : (s (a + 1)).broker.operations = before ++ [.start c.tag c.priority] := by
    rw [hattaches.recorded, hbefore]
  rcases hr.since hattaches han with ⟨log, hlog', hnone', _⟩ |
    ⟨b, c', log, hab, hbn, hlog', hnone', hsucceeds⟩
  · -- The log has another subscription, so somebody else was attached.
    rw [hlog', hfirst, List.append_assoc] at hlog
    have heq := List.append_cancel_left hlog
    obtain ⟨_, heq⟩ := List.cons.inj heq
    have hstart := hnone' (.start tag' priority') (by rw [show log = _ from heq]; simp)
    cases hstart
  · obtain ⟨tail, htail⟩ := hr.log_of_le (show b + 1 ≤ n from hbn)
    rw [htail, hsucceeds.attached.recorded, hlog', hfirst] at hlog
    simp only [List.append_assoc, List.cons_append, List.nil_append] at hlog
    have heq := List.append_cancel_left hlog
    obtain ⟨_, heq⟩ := List.cons.inj heq
    obtain ⟨rfl, hstart⟩ := split_first_unique (p := Operation.isStart) heq rfl rfl hnone' hnone
    cases hstart
    refine ⟨a, b, c, c', hab, hbn, hattaches, rfl, rfl, rfl, rfl, hbefore, ?_, hsucceeds⟩
    rw [hlog', hfirst, List.append_assoc]
    rfl

end

/-- Generations never overlap at the broker. At most one consumer is attached or has its cancel held
back. Between two subscriptions that follow each other the log has the cancel of the first consumer,
the rejects of its ledger pass and the confirmation of the cancel, and after these the rejects of
each generation that was created before the second subscriber. Each generation runs at most one
pass, and the passes come in the order of creation. Nothing is claimed for a generation after it
was stopped, and who was registered for a generation only claims what was delivered to it. -/
theorem generations_never_overlap (hr : Run cfg (fun a => a.isForeign = false) s) :
    (∀ n, ((s n).broker.consumers ++ (s n).broker.held).length ≤ 1) ∧
    (∀ n before between after tag priority tag' priority',
      (s n).broker.operations =
        before ++ .start tag priority :: (between ++ .start tag' priority' :: after) →
      (∀ op ∈ between, op.isStart = false) →
      ∃ a k b c c' rest, a < k ∧ k < b ∧ b < n ∧
        (s a).Attaches (s (a + 1)) c ∧ c.tag = tag ∧ (s a).broker.operations = before ∧
        (s b).Attaches (s (b + 1)) c' ∧ c'.tag = tag' ∧
        (s b).broker.operations = before ++ .start tag priority :: between ∧
        c.sink < c'.sink ∧ Yields cfg s c k between rest ∧
        ∀ j, c.sink < j → j < c'.sink → PassedWithin cfg s k b j rest) ∧
    (∀ k m g g', (s k).Passes cfg g (s (k + 1)) → (s m).Passes cfg g' (s (m + 1)) →
      (k = m ↔ g = g') ∧ (k < m → g < g')) ∧
    (∀ (m n c : Nat) (x : Claim M), ((s m).life x.generation).stopRequested = true →
      (s n).claims[c]? = some x → c < (s m).claims.length) ∧
    ∀ (m n i g c : Nat) (w : Wait M) (x : Claim M), (s m).waits[i]? = some w → w.stage = .starting g →
      (s n).claims[c]? = some x → x.wait = i →
      x.generation = g ∧ ∀ k j, ∀ d ∈ (s k).inbound j, d.tag = x.tag → j = g := by
  refine ⟨fun n => (hr.settled n).single, fun n before between after tag priority tag' priority'
    hlog hnone => ?_, fun k m g g' hk hm => ⟨⟨?_, ?_⟩, hr.passes_ascend hk hm⟩,
    fun m n c x hstop hx => hr.claimed_before_stop hstop hx,
    fun m n i g c w x hw hstart hx hi => ?_⟩
  · obtain ⟨a, b, c, c', _, hbn, hattaches, htag, _, htag', _, hbefore, hbetween, hsucceeds⟩ :=
      hr.succeeds hlog hnone
    obtain ⟨k, rest, hak, hkb, hyields, hothers⟩ := hsucceeds.yields
    exact ⟨a, k, b, c, c', rest, hak, hkb, hbn, hattaches, htag, hbefore, hsucceeds.attached,
      htag', hbetween, hsucceeds.later, hyields, hothers⟩
  · rintro rfl
    exact hr.passes_single hk hm
  · rintro rfl
    rcases Nat.lt_trichotomy k m with hlt | heq | hgt
    · exact (Nat.lt_irrefl _ (hr.passes_ascend hk hm hlt)).elim
    · exact heq
    · exact (Nat.lt_irrefl _ (hr.passes_ascend hm hk hgt)).elim
  · have hg := hr.claimed_of_starting hw hstart hx hi
    refine ⟨hg, fun k j d hd htag => ?_⟩
    obtain ⟨k', _, ⟨e, htakes⟩, _, _⟩ := hr.taken hx
    obtain ⟨rest, y, hserves⟩ := htakes.serves
    have hinbound : e ∈ (s k').inbound x.generation := by
      rw [inbound_of_some hserves.found, hserves.inbound]
      exact List.mem_cons_self ..
    rw [← hg]
    exact hr.receiver_unique hd hinbound (htag.trans htakes.tag.symm)

/-- The first caller gives up, and the cancel is held back. The second gives up before its
generation subscribes, and that of the third waits for both. -/
def successions : List (Move Unit) :=
  [.act (.call "a message" fun _ => .holds true), .step (.wait 0), .step (.generation 0),
    .act (.publish default), .act (.giveUp 0), .act .hold, .step (.generation 0),
    .act (.call "another" fun _ => .holds true), .step (.wait 1), .act (.giveUp 1),
    .act (.call "a third" fun _ => .holds true), .step (.wait 2), .step (.generation 1),
    .step (.generation 2), .act .release, .step (.generation 1), .step (.generation 2)]

/-- The third consumer is attached after the passes of the first two. -/
theorem third_succeeds_first : ∃ s : Nat → Harness Unit,
    Run .bare (fun a => a.isForeign = false) s ∧
    (s 17).broker.operations = [.start "consumer" 10, .cancel "consumer", .nack 1 true,
      .cancelConfirmed "consumer", .start "consumer" 10] ∧
    ∃ a k b c c' rest, a < k ∧ k < b ∧ b < 17 ∧ (s a).Attaches (s (a + 1)) c ∧
      (s b).Attaches (s (b + 1)) c' ∧ c.sink < c'.sink ∧
      Yields .bare s c k [.cancel "consumer", .nack 1 true, .cancelConfirmed "consumer"] rest ∧
      ∀ j, c.sink < j → j < c'.sink → PassedWithin .bare s k b j rest := by
  have hr : Run .bare _ (after .bare (initial .bare) successions) := run_after rfl
  obtain ⟨_, hlog, _⟩ := generations_never_overlap hr
  obtain ⟨a, k, b, c, c', rest, hak, hkb, hbn, hc, _, _, hc', _, _, hlt, hyields, hothers⟩ :=
    hlog 17 [] [.cancel "consumer", .nack 1 true, .cancelConfirmed "consumer"] [] "consumer" 10
      "consumer" 10 rfl (by decide)
  exact ⟨_, hr, rfl, a, k, b, c, c', rest, hak, hkb, hbn, hc, hc', hlt, hyields, hothers⟩

end Harness
end Intercept
