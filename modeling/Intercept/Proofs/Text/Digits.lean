import Mathlib.Data.List.TakeWhile
import Mathlib.Data.Nat.Init
import Intercept.Text.Hex

/-! The digits that a number is written with, their values, and where they end in a text. -/
namespace Intercept.Text
variable {b n d : Nat} {ds : List Nat} {α : Type} {p : α → Bool} {x y s t : List α}

/-- These digits stand for a number, and it is written with them. A zero in front stands alone. -/
structure Denotes (b : Nat) (ds : List Nat) (n : Nat) : Prop where
  lt : ∀ d ∈ ds, d < b
  value : ds.foldl (fun m d => m * b + d) 0 = n
  written : Nat.toDigits b n = ds.map Nat.digitChar
  leading : ds.head? = some 0 → ds = [0]

theorem Denotes.ne_nil (h : Denotes b ds n) : ds ≠ [] := by
  rintro rfl
  exact Nat.toDigits_ne_nil h.written

/-- Every number is written with its digits. -/
theorem exists_denotes (hb : 1 < b) (n : Nat) : ∃ ds, Denotes b ds n := by
  induction n using Nat.strongRecOn with
  | ind n ih =>
    by_cases hlt : n < b
    · refine ⟨[n], by simpa using hlt, by simp, Nat.toDigits_of_lt_base hlt, fun hhead => ?_⟩
      rw [Option.some.inj hhead]
    · have hle : b ≤ n := Nat.le_of_not_lt hlt
      obtain ⟨ds, hds⟩ := ih (n / b) (Nat.div_lt_self (by omega) hb)
      refine ⟨ds ++ [n % b], ?_, ?_, ?_, fun hhead => ?_⟩
      · intro d hd
        obtain hd | hd := List.mem_append.1 hd
        · exact hds.lt d hd
        · rw [List.mem_singleton.1 hd]
          exact Nat.mod_lt n (by omega)
      · rw [List.foldl_append, hds.value, List.foldl_cons, List.foldl_nil]
        exact Nat.div_add_mod' n b
      · rw [Nat.toDigits_of_base_le hb hle, hds.written, List.map_append]
        rfl
      · -- The quotient is not zero, so its digits do not begin with a zero.
        have hzero : ds.head? = some 0 := by
          obtain ⟨d, rest, rfl⟩ := List.exists_cons_of_ne_nil hds.ne_nil
          exact hhead
        have hvalue := hds.value
        rw [hds.leading hzero] at hvalue
        have hpos : 0 < n / b := Nat.div_pos hle (by omega)
        simp only [List.foldl_cons, List.foldl_nil, Nat.zero_mul, Nat.zero_add] at hvalue
        omega

theorem hexDigit?_digitChar : ∀ d < 16, hexDigit? (Nat.digitChar d) = some d := by decide

/-! Parts of a text that tell themselves from what follows. -/

/-- What has a property ends where the first part without it begins. -/
theorem takeWhile_append_of_head (hx : ∀ e ∈ x, p e = true) (hs : ∀ e ∈ s.head?, p e = false) :
    (x ++ s).takeWhile p = x ∧ (x ++ s).dropWhile p = s := by
  rw [List.takeWhile_append_of_pos hx, List.dropWhile_append_of_pos hx]
  cases s with
  | nil => simp
  | cons e s => simp [hs e rfl]

theorem append_inj_of_head (hx : ∀ e ∈ x, p e = true) (hy : ∀ e ∈ y, p e = true)
    (hs : ∀ e ∈ s.head?, p e = false) (ht : ∀ e ∈ t.head?, p e = false) (h : x ++ s = y ++ t) :
    x = y ∧ s = t := by
  obtain ⟨htake, hdrop⟩ := takeWhile_append_of_head hx hs
  obtain ⟨htake', hdrop'⟩ := takeWhile_append_of_head hy ht
  rw [h] at htake hdrop
  exact ⟨htake.symm.trans htake', hdrop.symm.trans hdrop'⟩

theorem isDigit_of_mem_toDigits {c : Char} {n : Nat} (h : c ∈ Nat.toDigits 10 n) :
    c.isDigit = true :=
  Nat.isDigit_of_mem_toDigits (by decide) (by decide) h

/-- Numbers that are written alike are the same. -/
theorem toDigits_inj {m n : Nat} (h : Nat.toDigits 10 m = Nat.toDigits 10 n) : m = n := by
  have hvalue := congrArg (Nat.ofDigitChars 10 · 0) h
  simpa only [Nat.ofDigitChars_ten_toDigits] using hvalue

/-- A number ends where the first character stands that is no digit. -/
theorem toDigits_append_inj {m n : Nat} {s t : List Char}
    (hs : ∀ c ∈ s.head?, c.isDigit = false) (ht : ∀ c ∈ t.head?, c.isDigit = false)
    (h : Nat.toDigits 10 m ++ s = Nat.toDigits 10 n ++ t) : m = n ∧ s = t := by
  obtain ⟨hmn, hst⟩ := append_inj_of_head (fun _ hc => isDigit_of_mem_toDigits hc)
    (fun _ hc => isDigit_of_mem_toDigits hc) hs ht h
  exact ⟨toDigits_inj hmn, hst⟩

theorem newline_not_mem_toDigits (n : Nat) : '\n' ∉ Nat.toDigits 10 n := by
  intro h
  exact absurd (isDigit_of_mem_toDigits h) (by decide)

/-- A text within another one stands for itself. -/
@[simp] theorem toString_text (s : String) : toString s = s := rfl

end Intercept.Text
