/-!
Finite sets of delivery tags, kept as strictly ascending lists: the least tag is the head, and
membership after each operation is what the operation's name says.
-/

namespace Intercept

/-- A finite set of delivery tags, listed in ascending order without repetition. -/
structure TagSet where
  toList : List Nat
  ascending : toList.Pairwise (· < ·) := by decide

namespace TagSet

instance : Membership Nat TagSet where
  mem s t := t ∈ s.toList

instance (t : Nat) (s : TagSet) : Decidable (t ∈ s) :=
  inferInstanceAs (Decidable (t ∈ s.toList))

theorem mem_def {t : Nat} {s : TagSet} : t ∈ s ↔ t ∈ s.toList := Iff.rfl

def empty : TagSet where
  toList := []

instance : EmptyCollection TagSet := ⟨empty⟩
instance : Inhabited TagSet := ⟨empty⟩

@[simp] theorem toList_empty : (∅ : TagSet).toList = [] := rfl

@[simp] theorem not_mem_empty (t : Nat) : ¬ t ∈ (∅ : TagSet) := List.not_mem_nil

def size (s : TagSet) : Nat := s.toList.length

/-- The least tag, if there is one. -/
def min? (s : TagSet) : Option Nat := s.toList.head?

theorem min?_eq_none_iff {s : TagSet} : s.min? = none ↔ ∀ t, ¬ t ∈ s := by
  rw [min?, List.head?_eq_none_iff, List.eq_nil_iff_forall_not_mem]
  rfl

theorem mem_of_min? {s : TagSet} {t : Nat} (h : s.min? = some t) : t ∈ s :=
  List.mem_of_head? h

theorem min?_le {s : TagSet} {t u : Nat} (h : s.min? = some t) (hu : u ∈ s) : t ≤ u := by
  obtain ⟨rest, hs⟩ := List.head?_eq_some_iff.1 h
  have hasc := s.ascending
  rw [mem_def, hs] at hu
  rw [hs] at hasc
  obtain rfl | hu := List.mem_cons.1 hu
  · exact Nat.le_refl _
  · exact Nat.le_of_lt ((List.pairwise_cons.1 hasc).1 u hu)

/-- Puts a tag at its place in an ascending list, unless it is there already. -/
def place (t : Nat) : List Nat → List Nat
  | [] => [t]
  | a :: rest =>
    if t < a then t :: a :: rest
    else if a < t then a :: place t rest
    else a :: rest

theorem mem_place {t u : Nat} {l : List Nat} : u ∈ place t l ↔ u = t ∨ u ∈ l := by
  induction l with
  | nil => simp [place]
  | cons a rest ih =>
    unfold place
    split
    · simp
    · split
      · simp only [List.mem_cons, ih]
        exact or_left_comm
      · have ha : a = t := by omega
        simp [ha]

theorem place_ascending {t : Nat} {l : List Nat} (h : l.Pairwise (· < ·)) :
    (place t l).Pairwise (· < ·) := by
  induction l with
  | nil => simp [place]
  | cons a rest ih =>
    obtain ⟨ha, hrest⟩ := List.pairwise_cons.1 h
    unfold place
    split
    · next hlt =>
      refine List.pairwise_cons.2 ⟨fun u hu => ?_, h⟩
      obtain rfl | hu := List.mem_cons.1 hu
      · exact hlt
      · exact Nat.lt_trans hlt (ha u hu)
    · split
      · next hlt =>
        refine List.pairwise_cons.2 ⟨fun u hu => ?_, ih hrest⟩
        obtain rfl | hu := mem_place.1 hu
        · exact hlt
        · exact ha u hu
      · exact h

def insert (s : TagSet) (t : Nat) : TagSet where
  toList := place t s.toList
  ascending := place_ascending s.ascending

@[simp] theorem mem_insert {s : TagSet} {t u : Nat} : u ∈ s.insert t ↔ u = t ∨ u ∈ s := mem_place

/-- The tags that satisfy `p`. -/
def filter (s : TagSet) (p : Nat → Bool) : TagSet where
  toList := s.toList.filter p
  ascending := s.ascending.sublist List.filter_sublist

@[simp] theorem mem_filter {s : TagSet} {p : Nat → Bool} {t : Nat} :
    t ∈ s.filter p ↔ t ∈ s ∧ p t = true := List.mem_filter

def erase (s : TagSet) (t : Nat) : TagSet := s.filter (· != t)

@[simp] theorem mem_erase {s : TagSet} {t u : Nat} : u ∈ s.erase t ↔ u ∈ s ∧ u ≠ t := by
  simp [erase]

/-- The greatest tag at or below `n`, if there is one. -/
def floor? (s : TagSet) (n : Nat) : Option Nat := (s.filter (· ≤ n)).toList.getLast?

theorem floor?_eq_none_iff {s : TagSet} {n : Nat} : s.floor? n = none ↔ ∀ t ∈ s, n < t := by
  rw [floor?, List.getLast?_eq_none_iff, List.eq_nil_iff_forall_not_mem]
  constructor
  · intro h t ht
    have hn := h t
    rw [← mem_def, mem_filter] at hn
    simp only [ht, decide_eq_true_eq, true_and, Nat.not_le] at hn
    exact hn
  · intro h t ht
    obtain ⟨ht, hn⟩ := mem_filter.1 (mem_def.2 ht)
    have := h t ht
    simp at hn
    omega

theorem mem_of_floor? {s : TagSet} {n t : Nat} (h : s.floor? n = some t) : t ∈ s ∧ t ≤ n := by
  have ht := mem_filter.1 (mem_def.2 (List.mem_of_getLast? h))
  simpa using ht

theorem le_floor? {s : TagSet} {n t u : Nat} (h : s.floor? n = some t) (hu : u ∈ s) (hn : u ≤ n) :
    u ≤ t := by
  obtain ⟨before, hs⟩ := List.getLast?_eq_some_iff.1 h
  have hmem : u ∈ s.filter (· ≤ n) := mem_filter.2 ⟨hu, by simpa using hn⟩
  have hasc := (s.filter (· ≤ n)).ascending
  rw [mem_def, hs] at hmem
  rw [hs] at hasc
  obtain hu | hu := List.mem_append.1 hmem
  · exact Nat.le_of_lt ((List.pairwise_append.1 hasc).2.2 u hu t (List.mem_singleton.2 rfl))
  · exact Nat.le_of_eq (List.mem_singleton.1 hu)

def ofList (l : List Nat) : TagSet := l.foldl insert ∅

theorem mem_ofList {l : List Nat} {t : Nat} : t ∈ ofList l ↔ t ∈ l := by
  suffices h : ∀ s : TagSet, t ∈ l.foldl insert s ↔ t ∈ s ∨ t ∈ l by
    simpa [ofList] using h ∅
  induction l with
  | nil => simp
  | cons a rest ih =>
    intro s
    rw [List.foldl_cons, ih, mem_insert, List.mem_cons, ← or_assoc, @or_comm (t ∈ s)]

end TagSet
end Intercept
