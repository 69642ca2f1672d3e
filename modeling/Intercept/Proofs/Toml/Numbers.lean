import Mathlib.Control.Basic
import Mathlib.Data.Option.Basic
import Intercept.Proofs.Text.Digits
import Intercept.Toml.Document

/-! An integer that ends its line is read as the integer that was written, and neither as a float nor
as a date. -/
namespace Intercept.Toml
variable {n d : Nat} {c : Char} {i : Int} {ds : List Nat} {s : Chars}

/-- Digits that end a line. -/
def digitsLine (ds : List Nat) (s : Chars) : Chars := ds.map Nat.digitChar ++ '\n' :: s

/-- An integer of 64 bits with a sign. A document holds no others. -/
structure Fits (i : Int) : Prop where
  low : Int64.minValue.toInt ≤ i
  high : i ≤ Int64.maxValue.toInt

/-- The characters of an integer. -/
def integerChars (i : Int) : List Char :=
  (if i < 0 then ['-'] else []) ++ Nat.toDigits 10 i.natAbs

theorem toList_repr (i : Int) : i.repr.toList = integerChars i := by
  cases i with
  | ofNat n => simp [integerChars, Int.repr]
  | negSucc n => simp [integerChars, Int.repr, Int.negSucc_lt_zero]

/-! Digits. -/

theorem digit?_digitChar : ∀ d < 10, digit? 10 (Nat.digitChar d) = some d := by decide

/-- No digit is one of the other characters that numbers, dates and times are written with. -/
theorem digitChar_not_mem : ∀ d < 10, Nat.digitChar d ∉ ['_', '+', '-', '.', ':', 'i', 'n'] := by
  decide

theorem digitChar_eq_zero : ∀ d < 10, Nat.digitChar d = '0' → d = 0 := by decide

theorem readDigits_digit (hd : d < 10) (s : Chars) :
    readDigits 10 (Nat.digitChar d :: s) = (readDigits 10 s).map fun (ds, s) => (d :: ds, s) := by
  have hunderscore : Nat.digitChar d ≠ '_' := fun he => digitChar_not_mem d hd (by simp [he])
  rw [readDigits.eq_def]
  split
  · simp_all
  · simp_all
  · next heq =>
    obtain ⟨rfl, rfl⟩ := List.cons.inj heq
    rw [digit?_digitChar d hd]
    cases readDigits 10 s <;> rfl
  · simp_all

theorem readDigits_line (h : ∀ d ∈ ds, d < 10) :
    readDigits 10 (digitsLine ds s) = some (ds, '\n' :: s) := by
  induction ds with
  | nil => rfl
  | cons d ds ih =>
    have hds := ih fun e he => h e (by simp [he])
    unfold digitsLine at hds ⊢
    simp [readDigits_digit (h d (by simp)), hds]

theorem readDigits1_line (h : ∀ d ∈ ds, d < 10) (hds : ds ≠ []) :
    readDigits1 10 (digitsLine ds s) = some (ds, '\n' :: s) := by
  obtain ⟨d, ds, rfl⟩ := List.exists_cons_of_ne_nil hds
  have hrest : readDigits 10 (ds.map Nat.digitChar ++ '\n' :: s) = some (ds, '\n' :: s) :=
    readDigits_line fun e he => h e (by simp [he])
  simp [digitsLine, readDigits1, digit?_digitChar d (h d (by simp)), hrest]

/-- A number without a needless zero in front is read whole. -/
theorem readWhole_line (h : Text.Denotes 10 ds n) :
    readWhole (digitsLine ds s) = some (ds, '\n' :: s) := by
  by_cases hzero : ds.head? = some 0
  · rw [h.leading hzero]
    rfl
  · obtain ⟨d, es, rfl⟩ := List.exists_cons_of_ne_nil h.ne_nil
    have hd : d < 10 := h.lt d (by simp)
    have hne : Nat.digitChar d ≠ '0' := by
      intro he
      exact hzero (by simp [digitChar_eq_zero d hd he])
    have hread := readDigits1_line (s := s) h.lt h.ne_nil
    unfold readWhole
    split
    · simp_all [digitsLine]
    · exact hread

/-! No date, no time, no float. -/

/-- Behind a number of some digits, further digits or the line end follow. -/
theorem readFixed_line (h : ∀ d ∈ ds, d < 10) (count value : Nat) :
    readFixed count value (digitsLine ds s) = none ∨
    ∃ n es, (∀ d ∈ es, d < 10) ∧
      readFixed count value (digitsLine ds s) = some (n, digitsLine es s) := by
  induction count generalizing value ds with
  | zero => exact .inr ⟨value, ds, h, by simp [readFixed]⟩
  | succ count ih =>
    cases ds with
    | nil => exact .inl rfl
    | cons d ds =>
      obtain ⟨hd, hds⟩ := List.forall_mem_cons.1 h
      have hnext := ih hds (value * 10 + d)
      simpa [digitsLine, readFixed, digit?_digitChar d hd] using hnext

/-- No mark stands behind digits that end a line. -/
theorem after?_line (h : ∀ d ∈ ds, d < 10) (hc : c ∈ ['-', ':', 'i', 'n']) (cs : List Char) :
    after? (c :: cs) (digitsLine ds s) = none := by
  cases ds with
  | nil =>
    have hne : c ≠ '\n' := by rintro rfl; simp at hc
    simp [digitsLine, after?, hne]
  | cons d ds =>
    have hne : c ≠ Nat.digitChar d := by
      rintro rfl
      have := digitChar_not_mem d (h d (by simp))
      simp_all
    simp [digitsLine, after?, hne]

theorem skipDate_line (h : ∀ d ∈ ds, d < 10) : skipDate (digitsLine ds s) = none := by
  obtain hnone | ⟨year, es, hes, hyear⟩ := readFixed_line (s := s) h 4 0
  · simp [skipDate, hnone]
  · simp [skipDate, hyear, after?_line hes]

theorem readPart_line (h : ∀ d ∈ ds, d < 10) (low high : Nat) :
    readPart low high (digitsLine ds s) = none ∨
    ∃ n es, (∀ d ∈ es, d < 10) ∧
      readPart low high (digitsLine ds s) = some (n, digitsLine es s) := by
  obtain hnone | ⟨n, es, hes, hn⟩ := readFixed_line (s := s) h 2 0
  · simp [readPart, hnone]
  · by_cases hbounds : low ≤ n ∧ n ≤ high
    · exact .inr ⟨n, es, hes, by simp [readPart, hn, hbounds]⟩
    · exact .inl (by simp [readPart, hn, hbounds])

theorem skipTime_line (h : ∀ d ∈ ds, d < 10) : skipTime (digitsLine ds s) = none := by
  obtain hnone | ⟨hour, es, hes, hhour⟩ := readPart_line (s := s) h 0 23
  · simp [skipTime, hnone]
  · simp [skipTime, hhour, after?_line hes]

theorem skipMoment_line (h : ∀ d ∈ ds, d < 10) : skipMoment (digitsLine ds s) = none := by
  simp [skipMoment, skipDate_line h, skipTime_line h]

theorem skipMoment_minus (s : Chars) : skipMoment ('-' :: s) = none := by
  have hminus : digit? 10 '-' = none := by decide
  simp [skipMoment, skipDate, skipTime, readPart, readFixed, hminus]

theorem readSign_line (h : ∀ d ∈ ds, d < 10) :
    readSign (digitsLine ds s) = (false, digitsLine ds s) := by
  cases ds with
  | nil => rfl
  | cons d ds =>
    have hd := digitChar_not_mem d (h d (by simp))
    unfold readSign
    split <;> simp_all [digitsLine]

/-! The integer. -/

/-- What is left of a written integer when its sign was read. -/
theorem readSign_integer (hds : Text.Denotes 10 ds i.natAbs) (s : Chars) :
    readSign (integerChars i ++ '\n' :: s) = (decide (i < 0), digitsLine ds s) := by
  unfold integerChars
  rw [hds.written]
  by_cases hneg : i < 0
  · simp [hneg, readSign, digitsLine]
  · simpa [hneg, digitsLine] using readSign_line (s := s) hds.lt

theorem skipFloat_integer (i : Int) (s : Chars) :
    skipFloat (integerChars i ++ '\n' :: s) = none := by
  obtain ⟨ds, hds⟩ := Text.exists_denotes (show 1 < 10 by decide) i.natAbs
  have hdecimal : skipDecimalFloat (integerChars i ++ '\n' :: s) = none := by
    simp [skipDecimalFloat, readSign_integer hds, readWhole_line hds, readFraction, readExponent]
  have hspecial : skipSpecialFloat (integerChars i ++ '\n' :: s) = none := by
    simp [skipSpecialFloat, readSign_integer hds, after?_line hds.lt]
  simp [skipFloat, hdecimal, hspecial]

theorem skipMoment_integer (i : Int) (s : Chars) :
    skipMoment (integerChars i ++ '\n' :: s) = none := by
  obtain ⟨ds, hds⟩ := Text.exists_denotes (show 1 < 10 by decide) i.natAbs
  unfold integerChars
  rw [hds.written]
  by_cases hneg : i < 0
  · simp [hneg, skipMoment_minus]
  · simpa [hneg, digitsLine] using skipMoment_line (s := s) hds.lt

theorem word?_of_fits (hi : Fits i) : word? (decide (i < 0)) i.natAbs = some i := by
  have hvalue : (if decide (i < 0) then -(i.natAbs : Int) else i.natAbs) = i := by
    by_cases hneg : i < 0
    · simp only [hneg, decide_true, if_true]
      omega
    · simp only [hneg, decide_false, Bool.false_eq_true, if_false]
      omega
  have hfits : (decide (Int64.minValue.toInt ≤ i) && decide (i ≤ Int64.maxValue.toInt)) = true := by
    rw [decide_eq_true hi.low, decide_eq_true hi.high]
    rfl
  simp only [word?, hvalue, hfits, if_true]

/-- A zero in front of an integer ends it, so no letter of a base follows. -/
theorem newline_of_zero {t : Chars} (h : integerChars i ++ '\n' :: s = '0' :: c :: t) :
    c = '\n' := by
  obtain ⟨ds, hds⟩ := Text.exists_denotes (show 1 < 10 by decide) i.natAbs
  unfold integerChars at h
  rw [hds.written] at h
  by_cases hneg : i < 0
  · simp [hneg] at h
  · obtain ⟨d, es, rfl⟩ := List.exists_cons_of_ne_nil hds.ne_nil
    simp only [hneg, if_false, List.nil_append, List.map_cons, List.cons_append,
      List.cons.injEq] at h
    have hzero : d = 0 := digitChar_eq_zero d (hds.lt d (by simp)) h.1
    have hone := hds.leading (by simp [hzero])
    obtain ⟨-, rfl⟩ := List.cons.inj hone
    exact (List.cons.inj h.2).1.symm

theorem readInteger_integer (hi : Fits i) (s : Chars) :
    readInteger (integerChars i ++ '\n' :: s) = some (i, '\n' :: s) := by
  obtain ⟨ds, hds⟩ := Text.exists_denotes (show 1 < 10 by decide) i.natAbs
  have hvalue : ofDigits 10 ds = i.natAbs := hds.value
  unfold readInteger
  split
  · next heq => exact absurd (newline_of_zero heq) (by decide)
  · next heq => exact absurd (newline_of_zero heq) (by decide)
  · next heq => exact absurd (newline_of_zero heq) (by decide)
  · simp [readSign_integer hds, readWhole_line hds, hvalue, word?_of_fits hi]

/-- An integer begins with no character that begins another value, a line or a header. -/
theorem head_integerChars (i : Int) : ∃ c cs, integerChars i = c :: cs ∧
    c ∉ ['[', '\x7b', '"', '\'', 't', 'f', ' ', '\t'] := by
  obtain ⟨ds, hds⟩ := Text.exists_denotes (show 1 < 10 by decide) i.natAbs
  unfold integerChars
  rw [hds.written]
  by_cases hneg : i < 0
  · exact ⟨'-', ds.map Nat.digitChar, by simp [hneg], by decide⟩
  · obtain ⟨d, es, rfl⟩ := List.exists_cons_of_ne_nil hds.ne_nil
    have hdigit : ∀ d < 10, Nat.digitChar d ∉ ['[', '\x7b', '"', '\'', 't', 'f', ' ', '\t'] := by
      decide
    exact ⟨Nat.digitChar d, es.map Nat.digitChar, by simp [hneg], hdigit d (hds.lt d (by simp))⟩

theorem newline_not_mem_integerChars (i : Int) : '\n' ∉ integerChars i := by
  unfold integerChars
  split <;> simp [Text.newline_not_mem_toDigits]

theorem readScalar_integer (hi : Fits i) (s : Chars) :
    readScalar (integerChars i ++ '\n' :: s) = some (.integer i, '\n' :: s) := by
  simp [readScalar, skipMoment_integer, skipFloat_integer, readInteger_integer hi]

/-- An integer is read back as the value that it was. -/
theorem readValue_integer (hi : Fits i) (fuel depth : Nat) (s : Chars) :
    readValue (fuel + 1) depth (integerChars i ++ '\n' :: s) = some (.integer i, '\n' :: s) := by
  have hscalar := readScalar_integer hi s
  obtain ⟨c, cs, hchars, hc⟩ := head_integerChars i
  rw [hchars, List.cons_append] at hscalar ⊢
  rw [readValue.eq_def]
  dsimp only
  split <;> simp_all

end Intercept.Toml
