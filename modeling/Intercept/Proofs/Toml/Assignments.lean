import Intercept.Proofs.Toml.Numbers

/-! A document of lines that each assign an integer to a name of its own is read as these
assignments, in their order. -/
namespace Intercept.Toml
variable {name : String} {i : Int} {s : Chars} {entries : Entries} {doc : List (String × Int)}

/-- A name that is a key without quotation marks. -/
structure Bare (name : String) : Prop where
  ne_nil : name.toList ≠ []
  all : name.toList.all isBareKeyChar = true

theorem Bare.bare (h : Bare name) : ∀ c ∈ name.toList, isBareKeyChar c = true :=
  List.all_eq_true.1 h.all

/-- The line that assigns an integer to a name. -/
def assignmentLine (name : String) (i : Int) : Chars :=
  name.toList ++ ' ' :: '=' :: ' ' :: (integerChars i ++ ['\n'])

/-- The lines of assignments. -/
def document (doc : List (String × Int)) : Chars := doc.flatMap fun e => assignmentLine e.1 e.2

/-- The entries that assignments make. -/
def assigned (doc : List (String × Int)) : Entries := doc.map fun e => (e.1, .value (.integer e.2))

theorem lookup_assigned_cons (name : String) (e : String × Int) (doc : List (String × Int)) :
    (assigned (e :: doc)).lookup name =
      if name = e.1 then some (.value (.integer e.2)) else (assigned doc).lookup name := by
  by_cases h : name = e.1
  · simp [assigned, h]
  · have hne : (name == e.1) = false := beq_false_of_ne h
    simp [assigned, List.lookup_cons, h, hne]

/-! A key. -/

/-- No bare character begins a line, a value or another key in its own way. -/
theorem ne_of_bare {c d : Char} (hc : isBareKeyChar c = true)
    (hd : d ∈ ['"', '\'', '#', '\n', '\r', '[', ' ', '\t', '\ufeff']) : c ≠ d := by
  rintro rfl
  simp only [List.mem_cons, List.not_mem_nil, or_false] at hd
  obtain rfl | rfl | rfl | rfl | rfl | rfl | rfl | rfl | rfl := hd
  all_goals exact absurd hc (by decide)

theorem Bare.head (h : Bare name) : ∃ c cs, name.toList = c :: cs ∧ isBareKeyChar c = true := by
  obtain ⟨c, cs, hname⟩ := List.exists_cons_of_ne_nil h.ne_nil
  exact ⟨c, cs, hname, h.bare c (by simp [hname])⟩

theorem skipBlanks_cons {c : Char} (h : isBlank c = false) (s : Chars) :
    skipBlanks (c :: s) = c :: s := by
  simp [skipBlanks, h]

theorem Bare.skipBlanks (h : Bare name) (s : Chars) :
    skipBlanks (name.toList ++ s) = name.toList ++ s := by
  obtain ⟨c, cs, hname, hc⟩ := h.head
  rw [hname, List.cons_append]
  apply skipBlanks_cons
  simp [isBlank, ne_of_bare hc]

theorem readKeyPart_bare (h : Bare name) (s : Chars) :
    readKeyPart (name.toList ++ ' ' :: s) = some (name, ' ' :: s) := by
  have hspace : ∀ c ∈ (' ' :: s).head?, isBareKeyChar c = false := by
    intro c hc
    cases hc
    decide
  obtain ⟨htake, hdrop⟩ := Text.takeWhile_append_of_head h.bare hspace
  obtain ⟨c, cs, hname, hc⟩ := h.head
  have hsome : name.toList.isEmpty = false := by simp [hname]
  unfold readKeyPart
  split
  · next heq =>
    rw [hname, List.cons_append] at heq
    exact absurd (List.cons.inj heq).1 (ne_of_bare hc (by simp))
  · next heq =>
    rw [hname, List.cons_append] at heq
    exact absurd (List.cons.inj heq).1 (ne_of_bare hc (by simp))
  · simp only [htake, hdrop, hsome, Bool.false_eq_true, if_false, String.ofList_toList]

theorem readKey_bare (h : Bare name) (s : Chars) :
    readKey (name.toList ++ ' ' :: '=' :: s) = some ([], name, '=' :: s) := by
  have hequals : skipBlanks (' ' :: '=' :: s) = '=' :: s := rfl
  have hparts (fuel : Nat) : readKeyParts (fuel + 1) (name.toList ++ ' ' :: '=' :: s) =
      some ([name], '=' :: s) := by
    simp [readKeyParts, h.skipBlanks, readKeyPart_bare h, hequals]
  simp [readKey, hparts, depthLimit]

/-! A line. -/

theorem put_of_lookup_none {key : String} {item : Item} (h : entries.lookup key = none) :
    put key item entries = entries ++ [(key, item)] := by
  induction entries with
  | nil => rfl
  | cons e entries ih =>
    obtain ⟨k, e⟩ := e
    simp only [List.lookup_cons] at h
    split at h
    · contradiction
    · next hne =>
      have hkey : k ≠ key := by
        rintro rfl
        simp at hne
      simp [put, hkey, ih h]

theorem assignAt_new (h : entries.lookup name = none) (v : Value) :
    assignAt [] name v entries = some (entries ++ [(name, .value v)]) := by
  simp [assignAt, descend, assign, h, put_of_lookup_none h]

/-- A draft in which only assignments were read. -/
def assignedSo (entries : Entries) : Draft := { entries }

theorem readPair_assignment (hname : Bare name) (hi : Fits i) (hnew : entries.lookup name = none)
    (s : Chars) :
    readPair (assignedSo entries) (assignmentLine name i ++ s) =
      some (assignedSo (entries ++ [(name, .value (.integer i))]), s) := by
  obtain ⟨c, cs, hchars, hc⟩ := head_integerChars i
  have hblank : skipBlanks (' ' :: (integerChars i ++ '\n' :: s)) = integerChars i ++ '\n' :: s := by
    rw [hchars]
    simp_all [skipBlanks, isBlank]
  have hend : endLine? ('\n' :: s) = some s := rfl
  have hpath : (assignedSo entries).path = [] := rfl
  have hchange : (assignedSo entries).change [] (assignAt [] name (.integer i)) =
      some (assignedSo (entries ++ [(name, .value (.integer i))])) := by
    simp [Draft.change, descend, assignedSo, assignAt_new hnew]
  simp [readPair, assignmentLine, readKey_bare hname, after?, hblank,
    readValue_integer hi, hend, hpath, hchange]

theorem readLine_assignment (hname : Bare name) (hi : Fits i) (hnew : entries.lookup name = none)
    (s : Chars) :
    readLine (assignedSo entries) (assignmentLine name i ++ s) =
      some (assignedSo (entries ++ [(name, .value (.integer i))]), s) := by
  have hpair := readPair_assignment hname hi hnew s
  obtain ⟨c, cs, hchars, hc⟩ := hname.head
  unfold assignmentLine at hpair ⊢
  rw [hchars] at hpair ⊢
  unfold readLine
  split <;> simp_all [ne_of_bare hc]

/-- An assignment ends where its line does. -/
theorem assignmentLine_eq (hname : Bare name) (i : Int) :
    ∃ cs, '\n' ∉ cs ∧ assignmentLine name i = cs ++ ['\n'] := by
  have hbare : '\n' ∉ name.toList := fun h => ne_of_bare (hname.bare _ h) (by simp) rfl
  refine ⟨name.toList ++ ' ' :: '=' :: ' ' :: integerChars i, ?_, ?_⟩
  · simp [hbare, newline_not_mem_integerChars]
  · simp [assignmentLine]

/-! A document. -/

theorem length_document (doc : List (String × Int)) : doc.length ≤ (document doc).length := by
  induction doc with
  | nil => simp
  | cons e doc ih =>
    have hline : 1 ≤ (assignmentLine e.1 e.2).length := by
      simp [assignmentLine]
      omega
    simp only [document, List.flatMap_cons, List.length_cons, List.length_append] at ih ⊢
    omega

/-- Assignments of further names are read behind those that were read. Each line takes one of the
fuel. -/
theorem readLines_document (hnames : ∀ e ∈ doc, Bare e.1) (hfits : ∀ e ∈ doc, Fits e.2)
    (hnodup : (doc.map Prod.fst).Nodup) (hnew : ∀ e ∈ doc, entries.lookup e.1 = none) {fuel : Nat}
    (hfuel : doc.length < fuel) :
    readLines fuel (assignedSo entries) (document doc) =
      some (assignedSo (entries ++ assigned doc)) := by
  induction doc generalizing entries fuel with
  | nil =>
    obtain ⟨fuel, rfl⟩ := Nat.exists_eq_succ_of_ne_zero (Nat.ne_zero_of_lt hfuel)
    simp [readLines, document, assigned, skipBlanks]
  | cons e doc ih =>
    obtain ⟨fuel, rfl⟩ := Nat.exists_eq_succ_of_ne_zero (Nat.ne_zero_of_lt hfuel)
    obtain ⟨hname, hnames⟩ := List.forall_mem_cons.1 hnames
    obtain ⟨hfit, hfits⟩ := List.forall_mem_cons.1 hfits
    obtain ⟨hfresh, hnew⟩ := List.forall_mem_cons.1 hnew
    obtain ⟨hother, hnodup⟩ := List.nodup_cons.1 hnodup
    have hnew' : ∀ e' ∈ doc, (entries ++ assigned [e]).lookup e'.1 = none := by
      intro e' he'
      have hne : (e'.1 == e.1) = false :=
        beq_false_of_ne fun h => hother (h ▸ List.mem_map_of_mem he')
      simp [List.lookup_append, hnew e' he', assigned, List.lookup_cons, hne]
    have hline := readLine_assignment hname hfit hfresh (document doc)
    have hrest := ih hnames hfits hnodup hnew' (Nat.lt_of_succ_lt_succ hfuel)
    have hskip : skipBlanks (document (e :: doc)) = assignmentLine e.1 e.2 ++ document doc := by
      simp [document, assignmentLine, hname.skipBlanks]
    have hall : entries ++ assigned (e :: doc) = entries ++ assigned [e] ++ assigned doc := by
      simp [assigned]
    rw [readLines, hskip]
    split
    · next hnil => simp [assignmentLine] at hnil
    · rw [hline, hall]
      exact hrest

/-- A document of assignments to names of their own is read as these assignments. -/
theorem read?_document (hnames : ∀ e ∈ doc, Bare e.1) (hfits : ∀ e ∈ doc, Fits e.2)
    (hnodup : (doc.map Prod.fst).Nodup) :
    read? (String.ofList (document doc)) = some (assigned doc) := by
  have hread : readLines ((document doc).length + 1) (assignedSo []) (document doc) =
      some (assignedSo (assigned doc)) :=
    readLines_document hnames hfits hnodup (by simp) (Nat.lt_succ_of_le (length_document doc))
  have hmark : ∀ t, document doc ≠ '\ufeff' :: t := by
    intro t ht
    cases doc with
    | nil => simp [document] at ht
    | cons e doc =>
      obtain ⟨c, cs, hchars, hc⟩ := (hnames e (by simp)).head
      simp [document, assignmentLine, hchars, ne_of_bare hc] at ht
  unfold read?
  simp only [String.toList_ofList]
  rw [show ({} : Draft) = assignedSo [] from rfl, hread]
  rfl

end Intercept.Toml
