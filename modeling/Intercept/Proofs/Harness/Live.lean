import Intercept.Proofs.Harness.Lineup

/-! A harness that is the only client of its broker, and how its books survive failures and
teardowns. -/
namespace Intercept.Harness
variable {M : Type} {cfg : Setup M} {h h' : Harness M} {f g i : Nat} {e : HarnessError}

/-- The claims that wait for a permit have not got one. -/
structure Queued (claims : List (Claim M)) (queue : List Nat) : Prop where
  distinct : queue.Nodup
  queued : ∀ c ∈ queue, ∃ x, claims[c]? = some x ∧ x.stage = .queued

/-- What holds of a harness whatever happens to it. -/
structure Kept (h : Harness M) : Prop where
  books : Books h.broker h.ledger h.claims
  queue : Queued h.claims h.permitQueue
  released : h.broker.disposed = true → h.broker.Released
  disposed : h.failure ≠ none → h.broker.disposed = true

/-- The books are balanced and the generations stand in line. -/
structure Standing (h : Harness M) (f : Nat) : Prop where
  active : Active h.broker h.ledger h.claims
  lineup : Lineup h.generations f
  latest : h.generations.length = (h.current.map (· + 1)).getD 0

/-- What holds as long as the harness has not failed. -/
structure Live (h : Harness M) (f : Nat) : Prop extends Standing h f where
  front : Front h.broker h.ledger h.claims h.generations f

/-- The front has left, and its cancel is to be confirmed now. -/
structure Closing (h : Harness M) (f : Nat) : Prop extends Standing h f where
  left : ∃ x, h.generations[f]? = some x ∧ x.stage = .ended ∧ x.life.state = .stopped
  consumers : h.broker.consumers = []
  held : h.broker.held = []

structure Settled (h : Harness M) : Prop extends Kept h where
  live : h.failure = none → ∃ f, h.Live f

/-- The part of a harness that its books are about. -/
def accounts (h : Harness M) :
    Broker Nat × Ledger × List (Claim M) × List Nat × Option HarnessError :=
  (h.broker, h.ledger, h.claims, h.permitQueue, h.failure)

theorem Kept.quiet (hk : h.Kept) (hs : h'.accounts = h.accounts) : h'.Kept := by
  simp only [accounts, Prod.mk.injEq] at hs
  obtain ⟨hb, hl, hc, hq, hf⟩ := hs
  refine ⟨?_, ?_, ?_, ?_⟩
  · rw [hb, hl, hc]
    exact hk.books
  · rw [hc, hq]
    exact hk.queue
  · rw [hb]
    exact hk.released
  · rw [hb, hf]
    exact hk.disposed

theorem Standing.quiet (hn : h.Standing f) (hs : h'.accounts = h.accounts)
    (hg : h'.generations = h.generations) (hc : h'.current = h.current) : h'.Standing f := by
  simp only [accounts, Prod.mk.injEq] at hs
  obtain ⟨hb, hl, hclaims, _, _⟩ := hs
  refine ⟨?_, ?_, ?_⟩
  · rw [hb, hl, hclaims]
    exact hn.active
  · rw [hg]
    exact hn.lineup
  · rw [hg, hc]
    exact hn.latest

theorem Settled.quiet (hi : h.Settled) (hs : h'.accounts = h.accounts)
    (hg : h'.generations = h.generations) (hc : h'.current = h.current) : h'.Settled := by
  refine ⟨hi.toKept.quiet hs, fun hnone => ?_⟩
  have hsame := hs
  simp only [accounts, Prod.mk.injEq] at hsame
  obtain ⟨hb, hl, hclaims, _, hf⟩ := hsame
  obtain ⟨f, hlive⟩ := hi.live (hf ▸ hnone)
  refine ⟨f, hlive.toStanding.quiet hs hg hc, ?_⟩
  rw [hb, hl, hclaims, hg]
  exact hlive.front

theorem Kept.unfailed (hk : h.Kept) (hd : h.broker.disposed = false) : h.failure = none := by
  apply Classical.byContradiction
  intro hf
  rw [hk.disposed hf] at hd
  cases hd

/-- The broker goes on, and is not disposed. -/
theorem Kept.still {b : Broker Nat} (hk : h.Kept) (hs : h.broker.Still b)
    (hd : b.disposed = h.broker.disposed) (hopen : h.broker.disposed = false) :
    ({ h with broker := b } : Harness M).Kept :=
  ⟨hk.books.still hs, hk.queue, Broker.released_of_open (hd.trans hopen),
    fun hf => hd.trans (hk.disposed hf)⟩

theorem Standing.still {b : Broker Nat} (hn : h.Standing f) (hs : h.broker.Still b)
    (hd : b.disposed = h.broker.disposed) : ({ h with broker := b } : Harness M).Standing f :=
  ⟨hn.active.still hs hd, hn.lineup, hn.latest⟩

/-- The front changes its own stage and deliveries. -/
theorem Standing.changeFront {φ : Generation → Generation} (hn : h.Standing f)
    (hφ : ∀ x, (φ x).life = x.life) : (h.changeGeneration f φ).Standing f :=
  ⟨hn.active, hn.lineup.modify_front hφ, (List.length_modify _ _ _).trans hn.latest⟩

theorem Standing.enter {stage : Stage} (hn : h.Standing f) : (h.enter f stage).Standing f :=
  hn.changeFront fun _ => rfl

/-- The current generation is the last one. -/
theorem Standing.current_last (hn : h.Standing f) :
    h.current = none ∧ h.generations.length = 0 ∨
      ∃ k x, h.current = some k ∧ h.generations.length = k + 1 ∧ h.generations[k]? = some x := by
  have hlatest := hn.latest
  cases hc : h.current with
  | none =>
    rw [hc] at hlatest
    exact .inl ⟨rfl, hlatest⟩
  | some k =>
    rw [hc] at hlatest
    have hlen : h.generations.length = k + 1 := hlatest
    exact .inr ⟨k, _, rfl, hlen, List.getElem?_eq_getElem (by omega)⟩

theorem Kept.settled_of_failure (hk : h.Kept) (hf : h.failure ≠ none) : h.Settled :=
  ⟨hk, fun hnone => (hf hnone).elim⟩

/-! The harness ends. -/

/-- Once the failure is set, the release of the broker leaves the books as they are. -/
theorem settled_shutDown {outcome : Outcome M} (hb : Books h.broker h.ledger h.claims)
    (hq : Queued h.claims h.permitQueue) (hr : h.broker.disposed = true → h.broker.Released)
    (hf : h.failure ≠ none) : (h.shutDown outcome).Settled := by
  obtain ⟨waits, heq⟩ := shutDown_eq h outcome
  have hd := Broker.released_dispose hr
  have hk : (h.shutDown outcome).Kept := by
    rw [heq]
    exact ⟨hb.still Broker.still_dispose, hq, fun _ => hd, fun _ => hd.1⟩
  refine hk.settled_of_failure ?_
  rw [heq]
  exact hf

theorem Kept.fail (hk : h.Kept) : (h.fail e).Settled := by
  rw [Harness.fail]
  cases hf : h.failure with
  | some e' => exact hk.settled_of_failure (by rw [hf]; exact Option.some_ne_none e')
  | none =>
    cases hc : h.current with
    | none => exact settled_shutDown hk.books hk.queue hk.released (Option.some_ne_none e)
    | some g => exact settled_shutDown hk.books hk.queue hk.released (Option.some_ne_none e)

theorem Kept.failGeneration (hk : h.Kept) : (h.failGeneration g e).Settled :=
  Kept.fail (hk.quiet rfl)

theorem Kept.startFailed (hk : h.Kept) : (h.startFailed g e).Settled :=
  Kept.failGeneration (hk.quiet rfl)

theorem Settled.dispose (hi : h.Settled) : h.dispose.Settled := by
  rw [Harness.dispose]
  split
  · exact hi
  · cases hc : h.current with
    | none =>
      exact settled_shutDown hi.books hi.queue hi.released (Option.some_ne_none _)
    | some g =>
      exact settled_shutDown hi.books hi.queue hi.released (Option.some_ne_none _)

theorem Settled.disposeIfUnowned (hi : h.Settled) : h.disposeIfUnowned.Settled := by
  rw [Harness.disposeIfUnowned]
  split
  · exact hi.dispose
  · exact hi

/-! Rejects. -/

/-- Acceptable rejects go through one after the other, up to the first that the connection fails. -/
theorem nackAll_accepted {rejects : List (Nat × Bool)} (cfg : Setup M)
    (hd : h.broker.disposed = false) (ha : Accepted {t | t ∈ h.broker.tags} rejects) :
    ∃ broker result p, h.nackAll cfg rejects = ({ h with broker }, result) ∧
      Broker.Settles rejects p h.broker broker ∧
      (∀ t, p t → ∃ r ∈ rejects, Broker.covers r.1 r.2 t = true) ∧
      (result = .ok () → ∀ t, p t ↔ ∃ r ∈ rejects, Broker.covers r.1 r.2 t = true) := by
  induction rejects generalizing h with
  | nil =>
    exact ⟨h.broker, .ok (), fun _ => False, rfl, Broker.settles_refl, nofun, fun _ t => by simp⟩
  | cons r rest ih =>
    obtain ⟨tag, multiple⟩ := r
    obtain ⟨hr, hrest⟩ := ha
    cases hc : cfg.connection.nack tag with
    | some e =>
      have hnack : h.nackAll cfg ((tag, multiple) :: rest) = (h, .error e) := by
        rw [nackAll, nack, hc]
      exact ⟨h.broker, .error e, fun _ => False, hnack, Broker.settles_refl, nofun, by simp⟩
    | none =>
      obtain ⟨b₁, hb₁, hs₁, _⟩ := @Broker.nack_of_unsettled Nat h.broker tag multiple hd hr
      have hleft : {t | t ∈ b₁.tags} =
          {t ∈ {t | t ∈ h.broker.tags} | Broker.covers tag multiple t = false} := by
        ext t
        simp only [Set.mem_ofPred_eq, hs₁.tags, Bool.not_eq_true]
      obtain ⟨broker, result, p, heq, hs, hsub, hp⟩ := @ih { h with broker := b₁ }
        (hs₁.disposed.trans hd) (hleft ▸ hrest)
      refine ⟨broker, result, fun t => Broker.covers tag multiple t = true ∨ p t, ?_, ?_, ?_, ?_⟩
      · rw [nackAll, nack, hc]
        simp only [hb₁]
        exact heq
      · refine Broker.Settles.trans (hs₁.subset fun r hr => ?_)
          (hs.subset fun r hr => List.mem_cons_of_mem _ hr)
        exact List.mem_cons.2 (.inl (List.mem_singleton.1 hr))
      · rintro t (ht | ht)
        · exact ⟨(tag, multiple), List.mem_cons_self .., ht⟩
        · obtain ⟨r, hr, hcovers⟩ := hsub t ht
          exact ⟨r, List.mem_cons_of_mem _ hr, hcovers⟩
      · intro hok t
        have hrest := hp hok t
        simp [hrest]

/-- A channel that is released takes no rejects. -/
theorem nackAll_of_disposed (cfg : Setup M) (hd : h.broker.disposed = true)
    (rejects : List (Nat × Bool)) : ∃ result, h.nackAll cfg rejects = (h, result) := by
  cases rejects with
  | nil => exact ⟨_, rfl⟩
  | cons r rest =>
    obtain ⟨tag, multiple⟩ := r
    rw [nackAll, nack]
    cases hc : cfg.connection.nack tag with
    | some e => exact ⟨_, rfl⟩
    | none =>
      simp only [Broker.nack_of_disposed hd]
      exact ⟨_, rfl⟩

/-! Teardowns. -/

/-- After a failure a teardown rejects nothing. -/
theorem Kept.teardown_of_failure (hk : h.Kept) (hf : h.failure ≠ none) :
    (h.teardown cfg g).Settled := by
  rw [Harness.teardown]
  split
  · exact Kept.fail (hk.quiet rfl)
  · next life _ =>
    have hledger : ({ h.changeLife g fun _ => life with
        ledger := h.ledger.teardown.2 } : Harness M).Kept :=
      ⟨hk.books.teardown Broker.settles_refl, hk.queue, hk.released, hk.disposed⟩
    obtain ⟨result, hr⟩ := nackAll_of_disposed cfg (hledger.disposed hf)
      h.ledger.teardown.1.rejects
    simp only [hr]
    cases result with
    | ok => exact Kept.settled_of_failure (hledger.quiet rfl) hf
    | error e => exact hledger.failGeneration

/-- Once the front has handed its messages back, the next generation is the front. -/
theorem front_advance {b : Broker Nat} {l : Ledger} {claims : List (Claim M)}
    {gens : List Generation} {φ : Generation → Generation} (h : Lineup gens f)
    (hlt : f < gens.length) (hc : b.consumers = []) (hh : b.held = []) :
    Front b l.teardown.2 claims (gens.modify f φ) (f + 1) := by
  have hnone : ∀ t, t ∉ l.teardown.2.shouldNack := TagSet.not_mem_empty
  cases hx : gens[f + 1]? with
  | none =>
    have hlen := List.getElem?_eq_none_iff.1 hx
    refine .rest ?_ hc hh rfl hnone
    rw [List.length_modify]
    omega
  | some x =>
    obtain ⟨hin, hst⟩ := h.behind (f + 1) x hx (Nat.lt_succ_self f)
    have hopening : x.stage.isOpening = true := by
      rcases hst with hst | ⟨d, hst⟩ <;> rw [hst] <;> rfl
    refine .opening x ?_ hopening hin hc hh rfl
    rw [List.getElem?_modify_ne _ _ (Nat.ne_of_lt (Nat.lt_succ_self f)), hx]

/-- The front hands its messages back. -/
theorem Closing.teardown (hc : h.Closing f) (hk : h.Kept) : (h.teardown cfg f).Settled := by
  obtain ⟨x, hx, hst, hstop⟩ := hc.left
  have hlt := (List.getElem?_eq_some_iff.1 hx).1
  have hlife : h.life f = x.life := by rw [life, hx]; rfl
  obtain ⟨life, hcomplete, hdone⟩ := @Lifecycle.setComplete_stopped x.life
    ((h.generations[f]?.map (·.consumer)).getD "") hstop
  obtain ⟨broker, result, p, heq, hs, _, hp⟩ := @nackAll_accepted M
    { h.changeLife f fun _ => life with ledger := h.ledger.teardown.2 }
    h.ledger.teardown.1.rejects cfg hc.active.running (hc.active.tracks.accepted hc.active.sound)
  have hdisposed : broker.disposed = false := hs.disposed.trans hc.active.running
  have hreleased : broker.disposed = true → broker.Released := Broker.released_of_open hdisposed
  have hfailure : h.failure ≠ none → broker.disposed = true :=
    fun hf => (hf (hk.unfailed hc.active.running)).elim
  rw [Harness.teardown, hlife, hcomplete]
  simp only [heq]
  cases result with
  | error e =>
    exact Kept.failGeneration ⟨hc.active.toBooks.teardown hs, hk.queue, hreleased, hfailure⟩
  | ok =>
    have hall : Broker.Settles h.ledger.plan.rejects
        (fun t => ∃ r ∈ h.ledger.plan.rejects, Broker.covers r.1 r.2 t = true) h.broker broker := by
      have hpt := funext fun t => propext (hp rfl t)
      exact hpt ▸ hs
    have hgens : ((h.generations.modify f fun x => { x with life }).modify f fun x =>
          { x with life := x.life.signalStopped }) =
        h.generations.modify f fun x => { x with life := life.signalStopped } :=
      List.modify_modify_eq _ _ _ _
    refine ⟨⟨hc.active.toBooks.teardown hs, hk.queue, hreleased, hfailure⟩,
      fun _ => ⟨f + 1, ⟨hc.active.teardown hall, ?_, ?_⟩, ?_⟩⟩
    · change Lineup ((h.generations.modify f _).modify f _) (f + 1)
      rw [hgens]
      exact hc.lineup.advance hx hst (Lifecycle.signalStopped_state.trans hdone)
    · change ((h.generations.modify f _).modify f _).length = _
      rw [List.length_modify, List.length_modify]
      exact hc.latest
    · change Front broker h.ledger.teardown.2 h.claims ((h.generations.modify f _).modify f _)
        (f + 1)
      rw [hgens]
      exact front_advance hc.lineup hlt (hs.consumers.trans hc.consumers) (hs.held.trans hc.held)

/-- The broker goes on without settling anything. -/
theorem Settled.still {b : Broker Nat} (hi : h.Settled) (hs : h.broker.Still b)
    (hd : b.disposed = h.broker.disposed) (hc : b.consumers = h.broker.consumers)
    (hh : b.held = h.broker.held) : ({ h with broker := b } : Harness M).Settled := by
  refine ⟨⟨hi.books.still hs, hi.queue, ?_, ?_⟩, fun hf => ?_⟩
  · rw [hd]
    intro hdis
    obtain ⟨_, hcons, hheld⟩ := hi.released hdis
    exact ⟨hd.trans hdis, hc.trans hcons, hh.trans hheld⟩
  · intro hf
    exact hd.trans (hi.disposed hf)
  · obtain ⟨f, hl⟩ := hi.live hf
    exact ⟨f, hl.toStanding.still hs hd,
      hl.front.congr hc hh rfl rfl rfl fun _ hnone => hnone⟩

theorem Closing.confirm {c : Consumer Nat} (hc : h.Closing f) (hk : h.Kept) (hsink : c.sink = f) :
    (h.confirm cfg c).Settled := by
  have ht : (h.teardown cfg c.sink).Settled := hsink ▸ hc.teardown hk
  have hs := Broker.still_record (b := (h.teardown cfg c.sink).broker) (.cancelConfirmed c.tag)
    (by simp)
  exact ht.still ⟨rfl, rfl, rfl, rfl, rfl, hs.nacks⟩ rfl rfl rfl

end Intercept.Harness
