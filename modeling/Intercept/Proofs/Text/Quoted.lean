import Mathlib.Data.List.Basic
import Intercept.Text.Quoted
import Intercept.Proofs.Text.Digits

/-! A quoted text is read back in one way only, alone and in a list, and shows printable characters
only. -/
namespace Intercept.Text
variable {c : Char} {s t u v : List Char} {items items' : List String} {n : Nat}

/-! Reading back. -/

/-- The number that hexadecimal digits stand for. -/
def hexValue (digits : List Char) : Nat :=
  digits.foldl (fun n c => n * 16 + (hexDigit? c).getD 0) 0

/-- Reads one character of a quoted text and leaves what follows it. The quotation mark that ends
the text is none. -/
def unescape : List Char → Option (Char × List Char)
  | '"' :: _ => none
  | '\\' :: '0' :: s => some ('\x00', s)
  | '\\' :: 't' :: s => some ('\t', s)
  | '\\' :: 'n' :: s => some ('\n', s)
  | '\\' :: 'r' :: s => some ('\r', s)
  | '\\' :: 'u' :: '\x7b' :: s =>
    some (Char.ofNat (hexValue (s.takeWhile (· ≠ '\x7d'))), (s.dropWhile (· ≠ '\x7d')).tail)
  | '\\' :: c :: s => some (c, s)
  | c :: s => some (c, s)
  | [] => none

theorem unescape_quote (s : List Char) : unescape ('"' :: s) = none := rfl

theorem unescape_plain (hquote : c ≠ '"') (hbackslash : c ≠ '\\') (s : List Char) :
    unescape (c :: s) = some (c, s) := by
  unfold unescape
  split <;> simp_all

theorem hexValue_toDigits (n : Nat) : hexValue (Nat.toDigits 16 n) = n := by
  obtain ⟨ds, hds⟩ := exists_denotes (show 1 < 16 by decide) n
  rw [hexValue, hds.written, List.foldl_map]
  calc
    ds.foldl (fun n d => n * 16 + (hexDigit? (Nat.digitChar d)).getD 0) 0 =
        ds.foldl (fun n d => n * 16 + d) 0 := by
      apply List.foldl_ext
      intro n d hd
      simp [hexDigit?_digitChar d (hds.lt d hd)]
    _ = n := hds.value

/-- A hexadecimal digit is a printable character other than the brace that ends a code point. -/
theorem printable_of_mem_toDigits (h : c ∈ Nat.toDigits 16 n) :
    c ≠ '\x7d' ∧ isUnprintable c = false := by
  obtain ⟨ds, hds⟩ := exists_denotes (show 1 < 16 by decide) n
  rw [hds.written] at h
  obtain ⟨d, hd, rfl⟩ := List.mem_map.1 h
  have hall : ∀ d < 16, Nat.digitChar d ≠ '\x7d' ∧ isUnprintable (Nat.digitChar d) = false := by
    decide +kernel
  exact hall d (hds.lt d hd)

theorem unescape_codePoint (c : Char) (s : List Char) :
    unescape (['\\', 'u', '\x7b'] ++ Nat.toDigits 16 c.toNat ++ ['\x7d'] ++ s) = some (c, s) := by
  have hdigits : ∀ d ∈ Nat.toDigits 16 c.toNat, decide (d ≠ '\x7d') = true := by
    intro d hd
    exact decide_eq_true (printable_of_mem_toDigits hd).1
  have hbrace : ∀ d ∈ ('\x7d' :: s).head?, decide (d ≠ '\x7d') = false := by simp
  obtain ⟨htake, hdrop⟩ := takeWhile_append_of_head hdigits hbrace
  simp only [List.append_assoc, List.cons_append, List.nil_append, unescape]
  rw [htake, hdrop, hexValue_toDigits, Char.ofNat_toNat, List.tail_cons]

/-- The characters with an escape of their own, and the letters that stand for them. -/
def ownEscapes : List (Char × Char) :=
  [('\x00', '0'), ('\t', 't'), ('\n', 'n'), ('\r', 'r'), ('"', '"'), ('\\', '\\')]

theorem unescape_own {d : Char} (h : (c, d) ∈ ownEscapes) (s : List Char) :
    unescape ('\\' :: d :: s) = some (c, s) := by
  simp only [ownEscapes, List.mem_cons, Prod.mk.injEq, List.not_mem_nil, or_false] at h
  obtain ⟨rfl, rfl⟩ | ⟨rfl, rfl⟩ | ⟨rfl, rfl⟩ | ⟨rfl, rfl⟩ | ⟨rfl, rfl⟩ | ⟨rfl, rfl⟩ := h <;> rfl

/-- The three ways in which a character is written. -/
theorem escapeChar_cases (c : Char) :
    (∃ d, (c, d) ∈ ownEscapes ∧ escapeChar c = ['\\', d]) ∨
    escapeChar c = ['\\', 'u', '\x7b'] ++ Nat.toDigits 16 c.toNat ++ ['\x7d'] ∨
    (isUnprintable c = false ∧ c ≠ '"' ∧ c ≠ '\\' ∧ escapeChar c = [c]) := by
  by_cases hown : ∃ d, (c, d) ∈ ownEscapes
  · obtain ⟨d, hd⟩ := hown
    refine .inl ⟨d, hd, ?_⟩
    simp only [ownEscapes, List.mem_cons, Prod.mk.injEq, List.not_mem_nil, or_false] at hd
    obtain ⟨rfl, rfl⟩ | ⟨rfl, rfl⟩ | ⟨rfl, rfl⟩ | ⟨rfl, rfl⟩ | ⟨rfl, rfl⟩ | ⟨rfl, rfl⟩ := hd <;> rfl
  · simp only [ownEscapes, List.mem_cons, Prod.mk.injEq, List.not_mem_nil, or_false,
      exists_or, exists_and_left, exists_eq, and_true, not_or] at hown
    obtain ⟨hzero, htab, hfeed, hreturn, hquote, hbackslash⟩ := hown
    cases hprint : isUnprintable c with
    | true =>
      refine .inr (.inl ?_)
      simp [escapeChar, *]
    | false =>
      refine .inr (.inr ⟨rfl, hquote, hbackslash, ?_⟩)
      simp [escapeChar, *]

/-- A written character is read back, whatever follows it. -/
theorem unescape_escapeChar (c : Char) (s : List Char) :
    unescape (escapeChar c ++ s) = some (c, s) := by
  obtain ⟨d, hd, hc⟩ | hc | ⟨_, hquote, hbackslash, hc⟩ := escapeChar_cases c <;> rw [hc]
  · exact unescape_own hd s
  · exact unescape_codePoint c s
  · exact unescape_plain hquote hbackslash s

/-- A text between quotation marks ends in one place only. -/
theorem escaped_inj :
    s.flatMap escapeChar ++ '"' :: u = t.flatMap escapeChar ++ '"' :: v → s = t ∧ u = v := by
  induction s generalizing t with
  | nil =>
    intro h
    cases t with
    | nil => exact ⟨rfl, by simpa using h⟩
    | cons d t =>
      have hread := congrArg unescape h
      simp [unescape_escapeChar, unescape_quote] at hread
  | cons c s ih =>
    intro h
    have hread := congrArg unescape h
    cases t with
    | nil => simp [unescape_escapeChar, unescape_quote] at hread
    | cons d t =>
      simp only [List.flatMap_cons, List.append_assoc, unescape_escapeChar, Option.some.injEq,
        Prod.mk.injEq] at hread
      obtain ⟨hst, huv⟩ := ih hread.2
      exact ⟨by rw [hread.1, hst], huv⟩

theorem quoteChars_inj (h : quoteChars s ++ u = quoteChars t ++ v) : s = t ∧ u = v := by
  apply escaped_inj
  simpa [quoteChars] using h

/-! Lists of quoted texts. -/

/-- The quoted texts behind the first of a list. -/
def quoteBehind (items : List String) : List Char :=
  items.flatMap fun item => ',' :: ' ' :: quoteChars item.toList

theorem intercalate_quoteChars (item : String) (items : List String) :
    [',', ' '].intercalate ((item :: items).map fun item => quoteChars item.toList) =
      quoteChars item.toList ++ quoteBehind items := by
  induction items generalizing item with
  | nil => simp [quoteBehind]
  | cons next items ih =>
    have hnext := ih next
    simp only [List.map_cons] at hnext
    simp only [List.map_cons, List.intercalate_cons_cons, hnext]
    simp [quoteBehind]

theorem toList_quoteList (items : List String) :
    (quoteList items).toList =
      '[' :: ([',', ' '].intercalate (items.map fun item => quoteChars item.toList) ++ [']']) := by
  have hquote : String.toList ∘ quote = fun item => quoteChars item.toList := by
    funext item
    simp [quote]
  simp [quoteList, hquote]

theorem toList_quoteList_nil : (quoteList []).toList = ['[', ']'] := by
  simp [toList_quoteList]

theorem toList_quoteList_cons (item : String) (items : List String) :
    (quoteList (item :: items)).toList =
      '[' :: (quoteChars item.toList ++ (quoteBehind items ++ [']'])) := by
  rw [toList_quoteList, intercalate_quoteChars, List.append_assoc]

/-- A quoted text behind the first tells itself from the bracket that ends the list. -/
theorem quoteBehind_inj (h : quoteBehind items ++ [']'] = quoteBehind items' ++ [']']) :
    items = items' := by
  induction items generalizing items' with
  | nil =>
    cases items' with
    | nil => rfl
    | cons item' items' => simp [quoteBehind] at h
  | cons item items ih =>
    cases items' with
    | nil => simp [quoteBehind] at h
    | cons item' items' =>
      simp only [quoteBehind, List.flatMap_cons, List.cons_append, List.append_assoc,
        List.cons.injEq, true_and] at h
      obtain ⟨hitem, hrest⟩ := quoteChars_inj h
      rw [String.toList_inj.1 hitem, ih hrest]

/-- Lists that are written alike are the same, whatever their texts hold. -/
theorem quoteList_injective : Function.Injective quoteList := by
  intro items items' h
  have hchars := congrArg String.toList h
  cases items with
  | nil =>
    cases items' with
    | nil => rfl
    | cons item' items' =>
      simp [toList_quoteList_nil, toList_quoteList_cons, quoteChars] at hchars
  | cons item items =>
    cases items' with
    | nil => simp [toList_quoteList_nil, toList_quoteList_cons, quoteChars] at hchars
    | cons item' items' =>
      simp only [toList_quoteList_cons, List.cons.injEq, true_and] at hchars
      obtain ⟨hitem, hrest⟩ := quoteChars_inj hchars
      rw [String.toList_inj.1 hitem, quoteBehind_inj hrest]

/-! What is shown. -/

/-- The characters that escapes, quotation and lists add to a text. -/
def marks : List Char := ['\\', 'u', '\x7b', '\x7d', '"', '[', ',', ' ', ']']

theorem printable_mark (h : c ∈ marks) : isUnprintable c = false := by
  have hall : marks.all (fun c => !isUnprintable c) = true := by decide +kernel
  simpa using List.all_eq_true.1 hall c h

theorem printable_own {d : Char} (h : (c, d) ∈ ownEscapes) : isUnprintable d = false := by
  have hall : ownEscapes.all (fun p => !isUnprintable p.2) = true := by decide +kernel
  simpa using List.all_eq_true.1 hall (c, d) h

/-- However a character is written, only printable ones are used. -/
theorem printable_of_mem_escapeChar {d : Char} (h : d ∈ escapeChar c) :
    isUnprintable d = false := by
  obtain ⟨e, he, hc⟩ | hc | ⟨hprint, _, _, hc⟩ := escapeChar_cases c <;> rw [hc] at h
  · simp only [List.mem_cons, List.not_mem_nil, or_false] at h
    obtain rfl | rfl := h
    · exact printable_mark (by decide)
    · exact printable_own he
  · simp only [List.mem_append] at h
    obtain (hopen | hdigit) | hclose := h
    · exact printable_mark ((by decide : ['\\', 'u', '\x7b'] ⊆ marks) hopen)
    · exact (printable_of_mem_toDigits hdigit).2
    · exact printable_mark ((by decide : ['\x7d'] ⊆ marks) hclose)
  · rw [List.mem_singleton.1 h]
    exact hprint

theorem printable_of_mem_quoteChars {d : Char} (h : d ∈ quoteChars s) :
    isUnprintable d = false := by
  simp only [quoteChars, List.cons_append, List.mem_cons, List.mem_append, List.mem_flatMap,
    List.not_mem_nil, or_false] at h
  obtain rfl | ⟨c, hc, hd⟩ | rfl := h
  · exact printable_mark (by decide)
  · exact printable_of_mem_escapeChar hd
  · exact printable_mark (by decide)

/-- A list of quoted texts shows printable characters only. -/
theorem printable_of_mem_quoteList {d : Char} (h : d ∈ (quoteList items).toList) :
    isUnprintable d = false := by
  cases items with
  | nil =>
    rw [toList_quoteList_nil] at h
    exact printable_mark ((by decide : ['[', ']'] ⊆ marks) h)
  | cons item items =>
    simp only [toList_quoteList_cons, quoteBehind, List.mem_cons, List.mem_append,
      List.mem_flatMap, List.not_mem_nil, or_false] at h
    obtain rfl | hitem | ⟨next, _, rfl | rfl | hnext⟩ | rfl := h
    · exact printable_mark (by decide)
    · exact printable_of_mem_quoteChars hitem
    · exact printable_mark (by decide)
    · exact printable_mark (by decide)
    · exact printable_of_mem_quoteChars hnext
    · exact printable_mark (by decide)

/-- The characters that end a line, which none but an unprintable one does. -/
def lineBreaks : List Char := ['\n', '\x0b', '\x0c', '\r', '\x85', '\u2028', '\u2029']

theorem unprintable_of_lineBreak (h : c ∈ lineBreaks) : isUnprintable c = true := by
  have hall : lineBreaks.all isUnprintable = true := by decide +kernel
  exact List.all_eq_true.1 hall c h

/-- A list of quoted texts stands on one line. -/
theorem not_lineBreak_of_mem_quoteList {d : Char} (h : d ∈ (quoteList items).toList) :
    d ∉ lineBreaks := by
  intro hbreak
  have := unprintable_of_lineBreak hbreak
  rw [printable_of_mem_quoteList h] at this
  contradiction

end Intercept.Text
