import Mathlib.Order.Bounds.Basic
import Intercept.Harness.Consumer
import Intercept.Proofs.Waiter.Offers

/-! What waiters have to tell of the deliveries that were offered to them: each of them counts and
samples those that got past the waiters before it, and nothing else. -/
namespace Intercept
variable {M : Type}

namespace Waiter

/-- Whether the waiter takes a delivery. Nobody takes one that could not be decoded. -/
def takes (w : Waiter M) (d : Option M × Body) : Bool := d.1.any w.matchesMessage

/-- What is noted if the predicate fails on a delivery. -/
def failure? (w : Waiter M) (d : Option M × Body) : Option String :=
  d.1.bind fun m => (w.predicate m).failureText?

/-- The counter and the samples of a waiter tell of these deliveries, the earliest first. -/
structure Reflects (w : Waiter M) (history : List (Option M × Body)) : Prop where
  messageCount : w.messageCount = history.length
  observed : w.observed =
    ((history.filter fun d => d.1.isSome).map fun d => Utf8.lossy d.2).take 10
  malformed : w.malformed =
    ((history.filter fun d => d.1.isNone).map fun d => Utf8.lossy d.2).take 10
  predicateFailures : w.predicateFailures = (history.filterMap w.failure?).take 10

end Waiter

/-- The waiters that are left after a delivery was offered to them: all but the one that took it. -/
def present (waiters : List (Waiter M)) (d : Option M × Body) : List (Waiter M) :=
  match firstMatch waiters d.1 d.2 with
  | (after, .matched i) => after.eraseIdx i
  | (after, _) => after

/-- The waiters that are left after some deliveries. -/
def presentAll (waiters : List (Waiter M)) (ds : List (Option M × Body)) : List (Waiter M) :=
  ds.foldl present waiters

/-- The deliveries that get past the waiters: those that nobody takes who is left. -/
def getPast (waiters : List (Waiter M)) : List (Option M × Body) → List (Option M × Body)
  | [] => []
  | d :: ds =>
    if waiters.any (·.takes d) then getPast (present waiters d) ds
    else d :: getPast (present waiters d) ds

variable {waiters before behind after : List (Waiter M)} {w w' : Waiter M} {m : M}
  {d : Option M × Body} {ds history : List (Option M × Body)} {i : Nat} {outcome : MatchOutcome}

/-! The samples of one waiter. -/

namespace Waiter

theorem takes_iff : w.takes d = true ↔ ∃ m, d.1 = some m ∧ w.predicate m = .holds true := by
  rw [takes, Option.any_eq_true]
  refine exists_congr fun m => and_congr_right fun _ => ?_
  rw [matchesMessage]
  cases w.predicate m <;> simp [Verdict.claims]

@[simp] theorem takes_see : (w.see d.1 d.2).takes = w.takes := by
  cases h : d.1 <;> rfl

theorem failure?_congr (h : w'.predicate = w.predicate) : w'.failure? = w.failure? := by
  funext d
  simp only [failure?, h]

@[simp] theorem failure?_see : (w.see d.1 d.2).failure? = w.failure? :=
  failure?_congr see_predicate

theorem addSample_take {samples : List String} {sample : String} :
    addSample (samples.take 10) sample = (samples ++ [sample]).take 10 := by
  rw [addSample, List.length_take]
  split
  · next hlt =>
    have hlt : samples.length < 10 := by
      simp only [sampleCap] at hlt
      omega
    rw [List.take_of_length_le (by omega), List.take_of_length_le (by simp; omega)]
  · next hfull =>
    have hle : 10 ≤ samples.length := by
      simp only [sampleCap] at hfull
      omega
    rw [List.take_append_of_le_length hle]

theorem Reflects.see (h : w.Reflects history) : (w.see d.1 d.2).Reflects (history ++ [d]) := by
  have hfailures : (w.see d.1 d.2).predicateFailures =
      addSample? w.predicateFailures (w.failure? d) := by
    cases hd : d.1 <;> simp [Waiter.see, offer, offerMalformed, failure?, hd, addSample?]
  refine ⟨?_, ?_, ?_, ?_⟩
  · simp [h.messageCount]
  · cases hd : d.1 with
    | none => simp [Waiter.see, offerMalformed, hd, h.observed]
    | some m => simp [Waiter.see, offer, hd, h.observed, addSample_take]
  · cases hd : d.1 with
    | none => simp [Waiter.see, offerMalformed, hd, h.malformed, addSample_take]
    | some m => simp [Waiter.see, offer, hd, h.malformed]
  · rw [hfailures, h.predicateFailures, failure?_see, List.filterMap_append]
    cases hf : w.failure? d with
    | none => simp [addSample?, hf]
    | some text => simp [addSample?, hf, addSample_take]

theorem predicate_foldl_see :
    (ds.foldl (fun w d => w.see d.1 d.2) w).predicate = w.predicate := by
  induction ds generalizing w with
  | nil => rfl
  | cons d rest ih => rw [List.foldl_cons, ih, see_predicate]

theorem Reflects.foldl_see (h : w.Reflects history) :
    (ds.foldl (fun w d => w.see d.1 d.2) w).Reflects (history ++ ds) := by
  induction ds generalizing w history with
  | nil => simpa using h
  | cons d rest ih => simpa using ih (h.see (d := d))

/-- The deadline of a waiter passes with a predicate error exactly if its predicate failed on a
delivery that reached it. -/
theorem Reflects.timeoutError (h : w.Reflects history) (report : TimeoutReport) :
    (∃ d ∈ history, (w.failure? d).isSome) ∧ w.timeoutError report = .predicate report ∨
    (∀ d ∈ history, w.failure? d = none) ∧ w.timeoutError report = .timeout report := by
  have hnil : w.predicateFailures.isEmpty = true ↔ ∀ d ∈ history, w.failure? d = none := by
    simp [h.predicateFailures, List.take_eq_nil_iff]
  rw [Waiter.timeoutError]
  by_cases hnone : ∀ d ∈ history, w.failure? d = none
  · exact .inr ⟨hnone, if_pos (hnil.2 hnone)⟩
  · refine .inl ⟨?_, if_neg fun heq => hnone (hnil.1 heq)⟩
    push Not at hnone
    obtain ⟨d, hd, hfails⟩ := hnone
    exact ⟨d, hd, Option.isSome_iff_ne_none.2 hfails⟩

end Waiter

/-! One delivery. -/

/-- The outcome as it looks with one more waiter in front. -/
def MatchOutcome.later : MatchOutcome → MatchOutcome
  | .matched i => .matched (i + 1)
  | outcome => outcome

theorem firstMatch_cons : firstMatch (w :: behind) d.1 d.2 =
    if w.takes d then (w.see d.1 d.2 :: behind, .matched 0)
    else (w.see d.1 d.2 :: (firstMatch behind d.1 d.2).1, (firstMatch behind d.1 d.2).2.later) := by
  obtain ⟨message, body⟩ := d
  cases message with
  | none => rfl
  | some m =>
    have htakes : w.takes (some m, body) = w.matchesMessage m := rfl
    rw [htakes]
    by_cases hw : w.matchesMessage m = true
    · simp [firstMatch, offerMessage, hw, Waiter.see]
    · cases hoffer : offerMessage behind m body with
      | mk seen index =>
        cases index <;>
          simp [firstMatch, offerMessage, hw, hoffer, Waiter.see, MatchOutcome.later]

/-- A delivery reaches a waiter unless one before it takes it. -/
theorem firstMatch_at (before : List (Waiter M)) (w : Waiter M) (behind : List (Waiter M))
    (d : Option M × Body) : (firstMatch (before ++ w :: behind) d.1 d.2).1[before.length]? =
    some (if before.any (·.takes d) then w else w.see d.1 d.2) := by
  induction before with
  | nil =>
    rw [List.nil_append, firstMatch_cons]
    split <;> rfl
  | cons u rest ih =>
    rw [List.cons_append, firstMatch_cons]
    by_cases hu : u.takes d = true
    · simp [hu]
    · simpa [hu] using ih

theorem matched_iff : (firstMatch waiters d.1 d.2).2 = .matched i ↔
    IsLeast {j | ∃ u, waiters[j]? = some u ∧ u.takes d = true} i := by
  cases hmatch : firstMatch waiters d.1 d.2 with
  | mk after outcome =>
    obtain ⟨_, hno, hnobody⟩ | ⟨m, before, w, behind, hd, hsplit, hw, hbefore, rfl, _, _⟩ :=
      firstMatch_cases hmatch
    · constructor
      · intro h
        exact (hno i h).elim
      · rintro ⟨⟨u, hu, htakes⟩, _⟩
        obtain ⟨m, hd, hm⟩ := Option.any_eq_true _ _ |>.1 htakes
        have hfalse := hnobody m hd u (List.mem_of_getElem? hu)
        rw [hm] at hfalse
        cases hfalse
    · have htakes (u : Waiter M) : u.takes d = u.matchesMessage m := by
        simp [Waiter.takes, hd]
      have hleast : IsLeast {j | ∃ u, waiters[j]? = some u ∧ u.takes d = true} before.length := by
        refine ⟨⟨w, by simp [hsplit], (htakes w).trans hw⟩, ?_⟩
        rintro j ⟨u, hu, hj⟩
        by_contra hlt
        have hmem : u ∈ before := by
          rw [hsplit, List.getElem?_append_left (by omega)] at hu
          exact List.mem_of_getElem? hu
        rw [htakes u, hbefore u hmem] at hj
        cases hj
      constructor
      · intro h
        cases h
        exact hleast
      · intro h
        rw [h.unique hleast]

@[simp] theorem present_nil : present [] d = [] := by
  cases hd : d.1 <;> simp [present, firstMatch, offerMessage, hd]

theorem present_cons :
    present (w :: behind) d = if w.takes d then behind else w.see d.1 d.2 :: present behind d := by
  rw [present, present, firstMatch_cons]
  by_cases hw : w.takes d = true
  · simp [hw]
  · cases hmatch : firstMatch behind d.1 d.2 with
    | mk after outcome => cases outcome <;> simp [hw, MatchOutcome.later]

theorem present_append : present (before ++ behind) d =
    present before d ++ if before.any (·.takes d) then behind else present behind d := by
  induction before with
  | nil => simp
  | cons u rest ih =>
    rw [List.cons_append, present_cons, present_cons, ih]
    by_cases hu : u.takes d = true <;> simp [hu]

/-! Deliveries one after the other. -/

theorem presentAll_append :
    presentAll (before ++ behind) ds = presentAll before ds ++ presentAll behind (getPast before ds) := by
  induction ds generalizing before behind with
  | nil => rfl
  | cons d rest ih =>
    change presentAll (present (before ++ behind) d) rest = presentAll (present before d) rest ++ _
    rw [present_append, ih, getPast]
    split <;> rfl

theorem getPast_append : getPast (before ++ behind) ds = getPast behind (getPast before ds) := by
  induction ds generalizing before behind with
  | nil => rfl
  | cons d rest ih =>
    rw [getPast, present_append, List.any_append]
    by_cases hbefore : before.any (·.takes d) = true
    · simp [getPast, hbefore, ih]
    · by_cases hbehind : behind.any (·.takes d) = true
      · simp [getPast, hbefore, hbehind, ih]
      · simp [getPast, hbefore, hbehind, ih]

theorem getPast_concat : getPast before (ds ++ [d]) =
    getPast before ds ++ if (presentAll before ds).any (·.takes d) then [] else [d] := by
  induction ds generalizing before with
  | nil => simp [getPast, presentAll]
  | cons e rest ih =>
    have hnext : presentAll before (e :: rest) = presentAll (present before e) rest := rfl
    rw [List.cons_append, getPast, getPast, ih, hnext]
    split <;> simp

/-! A waiter on its own: it is there until it takes a delivery, and lets all others past. -/

theorem presentAll_nil : presentAll [] ds = ([] : List (Waiter M)) := by
  induction ds with
  | nil => rfl
  | cons d rest ih => simpa [presentAll] using ih

theorem getPast_nil : getPast [] ds = ds := by
  induction ds with
  | nil => rfl
  | cons d rest ih => simpa [getPast] using ih

theorem presentAll_single :
    presentAll [w] ds = if ds.any w.takes then [] else [ds.foldl (fun w d => w.see d.1 d.2) w] := by
  induction ds generalizing w with
  | nil => rfl
  | cons d rest ih =>
    change presentAll (present [w] d) rest = _
    rw [present_cons, present_nil, List.any_cons]
    cases w.takes d with
    | true => exact presentAll_nil
    | false =>
      simp only [Bool.false_eq_true, if_false, ih, Waiter.takes_see, Bool.false_or, List.foldl_cons]

theorem getPast_single : getPast [w] ds = ds.eraseP w.takes := by
  induction ds generalizing w with
  | nil => rfl
  | cons d rest ih =>
    rw [getPast, present_cons]
    by_cases hw : w.takes d = true
    · simp [hw, getPast_nil]
    · simp [hw, ih]

/-- Of the deliveries each waiter keeps back the first that it takes. -/
theorem getPast_eq : getPast before ds = before.foldl (fun ds u => ds.eraseP u.takes) ds := by
  induction before generalizing ds with
  | nil => exact getPast_nil
  | cons u rest ih => rw [← List.singleton_append, getPast_append, getPast_single, ih]; rfl

/-- A new waiter that took nothing is left, between those left of the waiters before and behind it,
and tells of the deliveries that got past the former. -/
theorem presentAll_of_untaken (hnew : w.Reflects [])
    (hnone : ∀ d ∈ getPast before ds, w.takes d = false) :
    ∃ w', presentAll (before ++ w :: behind) ds =
        presentAll before ds ++ w' :: presentAll behind (getPast before ds) ∧
      w'.predicate = w.predicate ∧ w'.Reflects (getPast before ds) := by
  have hany : (getPast before ds).any w.takes = false := by simpa using hnone
  have hpast : getPast [w] (getPast before ds) = getPast before ds := by
    rw [getPast_single]
    exact List.eraseP_of_forall_not (by simpa using hnone)
  refine ⟨_, ?_, Waiter.predicate_foldl_see, hnew.foldl_see⟩
  rw [presentAll_append, ← List.singleton_append, presentAll_append, presentAll_single, hany, hpast]
  rfl

theorem presentAll_of_taken (htaken : ∃ d ∈ getPast before ds, w.takes d = true) :
    presentAll (before ++ w :: behind) ds =
      presentAll before ds ++ presentAll behind ((getPast before ds).eraseP w.takes) := by
  have hany : (getPast before ds).any w.takes = true := List.any_eq_true.2 htaken
  rw [presentAll_append, ← List.singleton_append, presentAll_append, presentAll_single, hany,
    getPast_single]
  rfl

/-- A consumer hands its deliveries out in this way. -/
theorem Harness.waiters_dispatch (cfg : Setup M) (h : Harness M) (g : Nat) (deadline : Option Nat)
    (d : Delivery) : (h.dispatch cfg g deadline d).waiters =
      present h.waiters (cfg.format.decode? d.body, d.body) := by
  have hstop (h' : Harness M) :
      (if h'.waiters.isEmpty then h'.changeLife g (·.stop) else h').waiters = h'.waiters := by
    split <;> rfl
  rw [dispatch, hstop, present]
  cases hmatch : firstMatch h.waiters (cfg.format.decode? d.body) d.body with
  | mk after outcome =>
    obtain ⟨_, hno, _⟩ | ⟨m, before, v, behind, hdecode, _, _, _, rfl, hv, _⟩ :=
      firstMatch_cases hmatch
    · cases outcome with
      | matched i => exact (hno i rfl).elim
      | malformed | noMatch => rfl
    · simp only [hdecode, hv]
      rfl

/-- Waiters tell exactly of what reached them. A delivery reaches those with nobody before them who
takes it, and the least of the waiters whose predicate holds takes it; an error or a panic is no
claim. So of the deliveries each waiter keeps back the first that it takes, and one that took none
of those that got past the others counts and samples precisely these, as it does with the next,
which it may take. -/
theorem diagnostics_tell_history {waiters : List (Waiter M)}
    (hnew : ∀ w ∈ waiters, w.Reflects []) :
    (∀ (listed : List (Waiter M)) (d : Option M × Body) (after : List (Waiter M))
        (outcome : MatchOutcome), firstMatch listed d.1 d.2 = (after, outcome) →
      (∀ before w behind, listed = before ++ w :: behind →
        ((d.1 = none ∨ ∀ u ∈ before, u.takes d = false) →
          after[before.length]? = some (w.see d.1 d.2)) ∧
        ((∃ u ∈ before, u.takes d = true) → after[before.length]? = some w)) ∧
      ∀ i, outcome = .matched i ↔ IsLeast
        {j | ∃ u m, listed[j]? = some u ∧ d.1 = some m ∧ u.predicate m = .holds true} i) ∧
    (∀ (cfg : Setup M) (h : Harness M) (g : Nat) (deadline : Option Nat) (d : Delivery),
      (h.dispatch cfg g deadline d).waiters =
        present h.waiters (cfg.format.decode? d.body, d.body)) ∧
    ∀ before w behind ds, waiters = before ++ w :: behind →
      getPast before ds = before.foldl (fun ds u => ds.eraseP u.takes) ds ∧
      ((∃ d ∈ getPast before ds, w.takes d = true) ∧
          presentAll waiters ds =
            presentAll before ds ++ presentAll behind ((getPast before ds).eraseP w.takes) ∨
        (∀ d ∈ getPast before ds, w.takes d = false) ∧
          ∃ w', presentAll waiters ds =
              presentAll before ds ++ w' :: presentAll behind (getPast before ds) ∧
            w'.predicate = w.predicate ∧ w'.Reflects (getPast before ds) ∧
            (∀ report,
              (∃ d ∈ getPast before ds, (w'.failure? d).isSome) ∧
                  w'.timeoutError report = .predicate report ∨
                (∀ d ∈ getPast before ds, w'.failure? d = none) ∧
                  w'.timeoutError report = .timeout report) ∧
            ∀ d, ∃ w'',
              (firstMatch (presentAll waiters ds) d.1 d.2).1[(presentAll before ds).length]? =
                some w'' ∧ w''.Reflects (getPast before (ds ++ [d]))) := by
  refine ⟨?_, Harness.waiters_dispatch, ?_⟩
  · intro listed d after outcome hmatch
    constructor
    · rintro before w behind rfl
      have hat := firstMatch_at before w behind d
      rw [hmatch] at hat
      constructor
      · intro hreaches
        have hfree : ∀ u ∈ before, ¬ u.takes d = true := by
          obtain hd | hfree := hreaches
          · simp [Waiter.takes, hd]
          · simpa using hfree
        rw [hat, if_neg (by simpa using hfree)]
      · intro htaken
        rw [hat, if_pos (List.any_eq_true.2 htaken)]
    · intro i
      have hclaims : {j : Nat | ∃ u : Waiter M, listed[j]? = some u ∧ u.takes d = true} =
          {j : Nat | ∃ (u : Waiter M) (m : M),
            listed[j]? = some u ∧ d.1 = some m ∧ u.predicate m = .holds true} := by
        ext j
        simp only [Waiter.takes_iff, Set.mem_ofPred_eq, exists_and_left]
      rw [← hclaims, ← matched_iff, hmatch]
  · rintro before w behind ds rfl
    have hw : w.Reflects [] := hnew w (by simp)
    refine ⟨getPast_eq, ?_⟩
    by_cases htaken : ∃ d ∈ getPast before ds, w.takes d = true
    · exact .inl ⟨htaken, presentAll_of_taken htaken⟩
    · push Not at htaken
      have hnone : ∀ d ∈ getPast before ds, w.takes d = false := by simpa using htaken
      obtain ⟨w', hpresent, hpredicate, hreflects⟩ := presentAll_of_untaken hw hnone
      refine .inr ⟨hnone, w', hpresent, hpredicate, hreflects, hreflects.timeoutError, fun d => ?_⟩
      rw [hpresent, firstMatch_at, getPast_concat]
      refine ⟨_, rfl, ?_⟩
      split
      · simpa using hreflects
      · exact hreflects.see

/-- A waiter for the number five whose predicate fails on lower ones. -/
def waitsForFive : Waiter Nat where
  id := 0
  description := "five"
  predicate n :=
    if n = 0 then .raised ⟨"zero", ["not a number to wait for"]⟩
    else if n < 5 then .panicked none
    else .holds (n == 5)

def waitsForEven : Waiter Nat where
  id := 1
  description := "even"
  predicate n := .holds (n % 2 == 0)

/-- Numbers with a malformed delivery between them. -/
def numbers : List (Option Nat × Body) :=
  [(some 3, [0x33]), (none, [0xFF]), (some 5, [0x35]), (some 7, [0x37])]

/-- The second waiter sees all but the five, which the first one takes after two deliveries that it
could make nothing of. -/
theorem numbers_told :
    (∃ w', presentAll [waitsForFive, waitsForEven] numbers = [w'] ∧ w'.messageCount = 3 ∧
      w'.malformed = ["\uFFFD"] ∧ ∀ report, w'.timeoutError report = .timeout report) ∧
    ∃ w', presentAll [waitsForFive, waitsForEven] (numbers.take 2) =
        w' :: presentAll [waitsForEven] (numbers.take 2) ∧
      w'.predicateFailures = ["predicate panicked: unknown panic"] ∧
      ∀ report, w'.timeoutError report = .predicate report := by
  have hnew : ∀ w ∈ [waitsForFive, waitsForEven], w.Reflects [] := by
    intro w hw
    simp only [List.mem_cons, List.not_mem_nil, or_false] at hw
    rcases hw with rfl | rfl <;> exact ⟨rfl, rfl, rfl, rfl⟩
  obtain ⟨_, _, hhistory⟩ := diagnostics_tell_history hnew
  constructor
  · have hpast : getPast [waitsForFive] numbers =
        [(some 3, [0x33]), (none, [0xFF]), (some 7, [0x37])] := by decide
    obtain ⟨_, ⟨htaken, _⟩ | ⟨_, w', hleft, hpredicate, htells, herror, _⟩⟩ :=
      hhistory [waitsForFive] waitsForEven [] numbers rfl
    · exact absurd htaken (by rw [hpast]; decide)
    · refine ⟨w', hleft, ?_, ?_, fun report => ?_⟩
      · rw [htells.messageCount, hpast]
        rfl
      · rw [htells.malformed, hpast]
        decide
      · obtain ⟨hfails, _⟩ | ⟨_, h⟩ := herror report
        · exact absurd hfails (by rw [hpast, Waiter.failure?_congr hpredicate]; decide)
        · exact h
  · obtain ⟨_, ⟨htaken, _⟩ | ⟨_, w', hleft, hpredicate, htells, herror, _⟩⟩ :=
      hhistory [] waitsForFive [waitsForEven] (numbers.take 2) rfl
    · exact absurd htaken (by decide)
    · refine ⟨w', hleft, ?_, fun report => ?_⟩
      · rw [htells.predicateFailures, Waiter.failure?_congr hpredicate]
        decide
      · obtain ⟨_, h⟩ | ⟨hnone, _⟩ := herror report
        · exact h
        · exact absurd hnone (by rw [Waiter.failure?_congr hpredicate]; decide)

end Intercept
