import Intercept.Proofs.Drain.Cycles

/-! What becomes of the registrations of a drain waiter. -/
namespace Intercept.DrainWaiter
variable {w w' : DrainWaiter} {m : DrainMove} {o : DrainOutcome} {id : String} {n k clock : Nat}
  {past past' : String → Prop} {queue : String} {timeout : Duration} {moves : Nat → DrainMove}
  {s : Nat → DrainWaiter}

/-- The names of those who are registered. -/
def ids (w : DrainWaiter) : List String := w.registrations.map (·.id)

/-- The outcomes that the caller of that name was told. -/
def told (w : DrainWaiter) (id : String) : List DrainOutcome :=
  (w.outcomes.filter (·.1 = id)).map (·.2)

theorem mem_ids_of_registered (h : { id := id } ∈ w.registrations) : id ∈ w.ids :=
  List.mem_map.2 ⟨_, h, rfl⟩

theorem told_of_outcomes (h : w'.outcomes = w.outcomes) : w'.told id = w.told id := by
  rw [told, h, told]

/-- What is handed out to one name. -/
theorem handed_filter : (w.handed o).filter (·.1 = id) =
    (w.registrations.filter (· = { id := id })).map fun r => (r.id, o) := by
  rw [handed, List.filter_map, List.filter_filter]
  refine congrArg _ (List.filter_congr fun r _ => ?_)
  obtain ⟨x, abandoned⟩ := r
  cases abandoned <;> simp

/-- Who is registered, and still cares, is told of what is handed out, and nobody else. -/
theorem told_of_ended (hn : w.ids.Nodup) (h : w'.outcomes = w.outcomes ++ w.handed o) :
    w'.told id = w.told id ++ if { id := id } ∈ w.registrations then [o] else [] := by
  have hapart : w.registrations.Nodup :=
    List.Pairwise.of_map _ (fun _ _ hne heq => hne (congrArg _ heq)) hn
  rw [told, h, List.filter_append, List.map_append, handed_filter, List.filter_eq, hapart.count,
    told]
  split <;> simp

/-- Some names were registered. Who is registered was told nothing yet, and nobody is told twice. -/
structure Filed (w : DrainWaiter) (past : String → Prop) : Prop where
  apart : w.ids.Nodup
  known : ∀ id ∈ w.ids, past id
  waiting : ∀ id ∈ w.ids, w.told id = []
  unknown : ∀ id, ¬ past id → w.told id = []
  once : ∀ id, (w.told id).length ≤ 1

theorem Filed.of_same (hf : w.Filed past) (hids : w'.ids = w.ids)
    (houtcomes : w'.outcomes = w.outcomes) : w'.Filed past := by
  have htold := fun id => @told_of_outcomes w w' id houtcomes
  refine ⟨hids ▸ hf.apart, fun id hid => ?_, fun id hid => ?_, fun id hid => ?_, fun id => ?_⟩
  · exact hf.known id (hids ▸ hid)
  · exact (htold id).trans (hf.waiting id (hids ▸ hid))
  · exact (htold id).trans (hf.unknown id hid)
  · rw [htold]
    exact hf.once id

theorem Filed.mono (hf : w.Filed past) (hpast : ∀ id, past id → past' id) : w.Filed past' :=
  ⟨hf.apart, fun id hid => hpast id (hf.known id hid), hf.waiting,
    fun id hid => hf.unknown id fun h => hid (hpast id h), hf.once⟩

theorem Filed.register (hf : w.Filed past) (hnew : ¬ past id) (hids : w'.ids = w.ids ++ [id])
    (houtcomes : w'.outcomes = w.outcomes) : w'.Filed fun x => past x ∨ x = id := by
  have htold := fun id => @told_of_outcomes w w' id houtcomes
  refine ⟨?_, fun x hx => ?_, fun x hx => ?_, fun x hx => ?_, fun x => ?_⟩
  · rw [hids, List.nodup_append]
    refine ⟨hf.apart, by simp, fun x hx y hy hxy => hnew ?_⟩
    rw [← List.mem_singleton.1 hy, ← hxy]
    exact hf.known x hx
  · rw [hids] at hx
    exact (List.mem_append.1 hx).imp (hf.known x) List.mem_singleton.1
  · rw [hids] at hx
    rw [htold]
    rcases List.mem_append.1 hx with hx | hx
    · exact hf.waiting x hx
    · exact hf.unknown x (List.mem_singleton.1 hx ▸ hnew)
  · exact (htold x).trans (hf.unknown x fun h => hx (.inl h))
  · rw [htold]
    exact hf.once x

/-- Everybody registered is told of the end of a cycle, and nobody is registered after it. -/
theorem Filed.ended (hf : w.Filed past) (hnobody : w'.registrations = [])
    (houtcomes : w'.outcomes = w.outcomes ++ w.handed o) : w'.Filed past := by
  have htold := fun id => @told_of_ended w w' o id hf.apart houtcomes
  have hids : w'.ids = [] := by rw [ids, hnobody, List.map_nil]
  refine ⟨by simp [hids], by simp [hids], by simp [hids], fun x hx => ?_, fun x => ?_⟩
  · have hout : ({ id := x } : DrainRegistration) ∉ w.registrations := fun h =>
      hx (hf.known x (mem_ids_of_registered h))
    rw [htold, hf.unknown x hx, if_neg hout, List.append_nil]
  · rw [htold]
    split
    · next hmem => simp [hf.waiting x (mem_ids_of_registered hmem)]
    · simpa using hf.once x

theorem ids_forget : (w.forget id).ids = w.ids := by
  simp only [ids, forget, List.map_map]
  refine List.map_congr_left fun r _ => ?_
  simp only [Function.comp_apply]
  split <;> rfl

theorem Filed.move (hf : w.Filed past) (hnew : ∀ id, m = .register id → ¬ past id) :
    (w.move m).Filed fun id => past id ∨ m = .register id := by
  cases books_move w m with
  | ended outcome _ hnobody houtcomes => exact (hf.ended hnobody houtcomes).mono fun _ => .inl
  | registered id hm _ _ hregs houtcomes =>
    have hids : (w.move m).ids = w.ids ++ [id] := by simp [ids, hregs]
    refine (hf.register (hnew id hm) hids houtcomes).mono fun x hx => ?_
    rcases hx with hx | rfl
    · exact .inl hx
    · exact .inr hm
  | forgot id hm _ houtcomes =>
    subst hm
    exact (hf.of_same ids_forget houtcomes).mono fun _ => .inl
  | kept _ _ hregs houtcomes =>
    have hids : (w.move m).ids = w.ids := by rw [ids, hregs, ids]
    exact (hf.of_same hids houtcomes).mono fun _ => .inl

/-! The time that a registration takes. -/

/-- Somebody is registered, and the poller is about to wake. -/
def Roused (w : DrainWaiter) (clock : Nat) : Prop :=
  w.poller = .asleep ∧ w.permit = true ∧ w.registrations ≠ [] ∧ w.clock = clock

theorem Roused.ready (hr : w.Roused clock) : w.ready = true := by
  obtain ⟨hp, hpermit, _⟩ := hr
  simp [DrainWaiter.ready, hp, hpermit]

/-- A poller that is about to wake does so before the clock goes on, unless the waiter is dropped. -/
theorem Roused.move (hr : w.Roused clock) (m : DrainMove) :
    (w.move m).Roused clock ∨ w.Starts m ∨ (m = .drop ∧ w.dropped = false) := by
  have hready := hr.ready
  obtain ⟨hp, hpermit, hsome, hclock⟩ := hr
  cases m with
  | step => exact .inr (.inl ⟨rfl, hp, hpermit, hsome⟩)
  | tick => exact .inl (by simp [DrainWaiter.move, hready, Roused, hp, hpermit, hsome, hclock])
  | drop =>
    cases hd : w.dropped with
    | true => exact .inl (by simp [DrainWaiter.move, drop, hd, Roused, hp, hpermit, hsome, hclock])
    | false => exact .inr (.inr ⟨rfl, rfl⟩)
  | register id =>
    refine .inl ?_
    simp only [DrainWaiter.move, register]
    split
    · exact ⟨hp, hpermit, hsome, hclock⟩
    · split
      · exact ⟨hp, hpermit, hsome, hclock⟩
      · exact ⟨hp, rfl, by simp, hclock⟩
  | forget id => exact .inl ⟨hp, hpermit, by simpa [DrainWaiter.move, forget] using hsome, hclock⟩
  | feed source => exact .inl ⟨hp, hpermit, hsome, hclock⟩
  | rest => exact .inl ⟨hp, hpermit, hsome, hclock⟩

/-- Somebody registered at a time is served within the timeout: the poller is about to wake, or its
cycle will end by then. -/
def Served (w : DrainWaiter) (clock : Nat) : Prop :=
  w.Roused clock ∨
    ∃ deadline, w.poller.deadline? = some deadline ∧ deadline ≤ clock + w.timeout.ticks

theorem Served.move (hs : w.Served clock) (hends : ∀ outcome, ¬ w.Ends m outcome) :
    (w.move m).Served clock := by
  have htimeout := (move_setup w m).2
  rcases hs with hr | ⟨deadline, hdeadline, hle⟩
  · rcases hr.move m with hr | hstarts | hdrop
    · exact .inl hr
    · exact .inr ⟨_, (starts_move hstarts).1, Nat.le_of_eq (by rw [htimeout, hr.2.2.2])⟩
    · exact absurd (.inr ⟨hdrop.1, hdrop.2, rfl⟩) (hends (.error .cancelled))
  · exact .inr ⟨deadline, deadline_of_not_ends hdeadline hends, htimeout ▸ hle⟩

/-- Until its cycle ends, a registration is not older than the timeout. -/
theorem Served.clock_le (hs : w.Served clock) (ht : w.Timely) :
    w.clock ≤ clock + w.timeout.ticks ∧
      (w.clock = clock + w.timeout.ticks → w.ready = true) := by
  rcases hs with hr | ⟨deadline, hdeadline, hle⟩
  · exact ⟨by have := hr.2.2.2; omega, fun _ => hr.ready⟩
  · unfold Timely at ht
    unfold DrainWaiter.ready
    cases hp : w.poller with
    | polling d answerAt result =>
      rw [hp] at hdeadline
      cases hdeadline
      simp only [hp] at ht
      refine ⟨by omega, fun h => ?_⟩
      simp only [Bool.or_eq_true, decide_eq_true_eq]
      omega
    | pausing d wakeAt =>
      rw [hp] at hdeadline
      cases hdeadline
      simp only [hp] at ht
      refine ⟨by omega, fun h => ?_⟩
      simp only [decide_eq_true_eq]
      omega
    | lingering d =>
      rw [hp] at hdeadline
      cases hdeadline
      simp only [hp] at ht
      refine ⟨by omega, fun h => ?_⟩
      simp only [decide_eq_true_eq]
      omega
    | _ =>
      rw [hp] at hdeadline
      cases hdeadline

/-! One registration. -/

/-- A caller is registered. -/
def Registers (w : DrainWaiter) (m : DrainMove) (id : String) : Prop :=
  m = .register id ∧ w.dropped = false ∧ w.failure = none

/-- A caller is registered since that time, and cares for its outcome. -/
def Pending (w : DrainWaiter) (id : String) (clock : Nat) : Prop :=
  { id := id } ∈ w.registrations ∧ w.Served clock

theorem Registers.pending (hr : w.Registers m id) (hi : w.Poised) :
    (w.move m).Pending id w.clock := by
  obtain ⟨rfl, hdropped, hfailure⟩ := hr
  have hopen : w.poller ≠ .ended := fun h => by simpa [hdropped, hfailure] using hi.ended.1 h
  have hmove : w.move (.register id) =
      { w with registrations := w.registrations ++ [{ id := id }], permit := true } := by
    simp [move, register, hdropped, hfailure]
  have ht := hi.timely
  unfold Timely at ht
  rw [hmove]
  refine ⟨by simp, ?_⟩
  cases hp : w.poller with
  | asleep => exact .inl ⟨rfl, rfl, by simp, rfl⟩
  | ended => exact absurd hp hopen
  | polling d answerAt result =>
    simp only [hp] at ht
    exact .inr ⟨d, rfl, ht.2.2⟩
  | pausing d wakeAt =>
    simp only [hp] at ht
    exact .inr ⟨d, rfl, ht.2.2⟩
  | lingering d =>
    simp only [hp] at ht
    exact .inr ⟨d, rfl, ht.2⟩

/-- A registration stays pending until its cycle ends, unless the caller no longer cares. -/
theorem Pending.move (hp : w.Pending id clock) (hforget : m ≠ .forget id) (hf : w.Filed past) :
    (w.move m).Pending id clock ∨ ∃ outcome, w.Ends m outcome ∧ (w.move m).told id = [outcome] := by
  obtain ⟨hmem, hserved⟩ := hp
  have hids := mem_ids_of_registered hmem
  cases books_move w m with
  | ended outcome he hnobody houtcomes =>
    refine .inr ⟨outcome, he, ?_⟩
    rw [told_of_ended hf.apart houtcomes, hf.waiting id hids, if_pos hmem, List.nil_append]
  | registered x hm _ _ hregs _ =>
    refine .inl ⟨hregs ▸ List.mem_append_left _ hmem, hserved.move fun o => ?_⟩
    exact not_ends_of_other (by simp [hm]) (by simp [hm])
  | forgot x hm hregs _ =>
    have hne : id ≠ x := fun heq => hforget (heq ▸ hm)
    refine .inl ⟨hregs ▸ List.mem_map.2 ⟨_, hmem, by simp [hne]⟩, hserved.move fun o => ?_⟩
    exact not_ends_of_other (by simp [hm]) (by simp [hm])
  | kept hends _ hregs _ => exact .inl ⟨hregs ▸ hmem, hserved.move hends⟩

/-- Who was told an outcome is told nothing else. -/
theorem Filed.told_move (hf : w.Filed past) (h : w.told id ≠ []) :
    (w.move m).told id = w.told id := by
  cases books_move w m with
  | ended outcome _ _ houtcomes =>
    have hout : ({ id := id } : DrainRegistration) ∉ w.registrations := fun hmem =>
      h (hf.waiting id (mem_ids_of_registered hmem))
    rw [told_of_ended hf.apart houtcomes, if_neg hout, List.append_nil]
  | registered x _ _ _ _ houtcomes => exact told_of_outcomes houtcomes
  | forgot x _ _ houtcomes => exact told_of_outcomes houtcomes
  | kept _ _ _ houtcomes => exact told_of_outcomes houtcomes

/-! Runs in which each caller has its own name. -/

/-- No name is registered twice. -/
def Distinct (moves : Nat → DrainMove) : Prop :=
  ∀ j k id, moves j = .register id → moves k = .register id → j = k

theorem Run.filed (hr : Run queue timeout moves s) (hd : Distinct moves) (n : Nat) :
    (s n).Filed fun id => ∃ j, j < n ∧ moves j = .register id := by
  induction n with
  | zero =>
    obtain ⟨source, h⟩ := hr.start
    rw [h]
    exact ⟨.nil, nofun, nofun, fun _ _ => rfl, fun _ => Nat.zero_le _⟩
  | succ n ih =>
    have hnew : ∀ id, moves n = .register id → ¬ ∃ j, j < n ∧ moves j = .register id := by
      rintro id hn ⟨j, hj, hreg⟩
      have := hd j n id hreg hn
      omega
    rw [hr.next]
    refine (ih.move hnew).mono fun id hid => ?_
    rcases hid with ⟨j, hj, hreg⟩ | hreg
    · exact ⟨j, Nat.lt_succ_of_lt hj, hreg⟩
    · exact ⟨n, Nat.lt_succ_self n, hreg⟩

/-- A caller that cares has one outcome, or is registered and served. -/
theorem Run.pending_or_told (hr : Run queue timeout moves s) (hd : Distinct moves)
    (hk : (s k).Registers (moves k) id) (hn : k < n)
    (hcares : ∀ j, k < j → j < n → moves j ≠ .forget id) :
    (s n).Pending id (s k).clock ∨ ∃ outcome, (s n).told id = [outcome] := by
  induction n with
  | zero => omega
  | succ n ih =>
    rw [hr.next]
    rcases Nat.lt_or_eq_of_le (Nat.le_of_lt_succ hn) with hlt | rfl
    · have hfiled := hr.filed hd n
      rcases ih hlt fun j hj hjn => hcares j hj (Nat.lt_succ_of_lt hjn) with hp | ⟨outcome, htold⟩
      · exact (hp.move (hcares n hlt (Nat.lt_succ_self n)) hfiled).imp_right
          fun ⟨outcome, _, htold⟩ => ⟨outcome, htold⟩
      · exact .inr ⟨outcome, (hfiled.told_move (by simp [htold])).trans htold⟩
    · exact .inl (hk.pending (hr.poised k))

end Intercept.DrainWaiter
