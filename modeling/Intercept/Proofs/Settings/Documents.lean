import Mathlib.Algebra.Ring.Int.Defs
import Mathlib.Algebra.Ring.Nat
import Intercept.Settings.Document
import Intercept.Proofs.Toml.Assignments

/-! Settings come back from the document that they were written to, and what is missing from it comes
back with its default. -/
namespace Intercept.Settings
variable {s t : Settings} {keep : Nat → Bool} {text : String} {doc : List (String × Int)}

/-! What is written. -/

/-- What the document of some settings assigns, line by line. -/
def assignments (s : Settings) : List (String × Int) :=
  [("timeout_ms", s.timeoutMs.toNat), ("priority", s.priority.toInt),
    ("prefetch_count", s.prefetchCount.toNat)]

theorem toList_assignment (name : String) (i : Int) :
    (assignment name i).toList = Toml.assignmentLine name i := by
  simp [assignment, Toml.assignmentLine, Toml.toList_repr]

theorem maxValue_eq : Int64.maxValue.toInt = 2 ^ 63 - 1 := by decide

theorem minValue_eq : Int64.minValue.toInt = -2 ^ 63 := by decide

/-- A timeout that TOML cannot write is refused. -/
theorem toToml_of_lt (h : 2 ^ 63 - 1 < s.timeoutMs.toNat) : s.toToml = .error .unwritable := by
  unfold toToml
  rw [if_pos]
  rw [maxValue_eq]
  omega

/-- Any other timeout is written. -/
theorem toToml_of_le (h : s.timeoutMs.toNat ≤ 2 ^ 63 - 1) :
    s.toToml = .ok (String.ofList (Toml.document s.assignments)) := by
  unfold toToml
  rw [if_neg]
  · apply congrArg Except.ok
    apply String.toList_inj.1
    simp [toList_assignment, Toml.document, assignments]
  · rw [maxValue_eq]
    omega

/-- Whatever is written can be read. -/
theorem fits_assignments (h : s.timeoutMs.toNat ≤ 2 ^ 63 - 1) :
    ∀ e ∈ s.assignments, Toml.Fits e.2 := by
  have hlow := s.priority.le_toInt
  have hhigh := s.priority.toInt_lt
  have hprefetch := s.prefetchCount.toNat_lt
  intro e he
  simp only [assignments, List.mem_cons, List.not_mem_nil, or_false] at he
  obtain rfl | rfl | rfl := he
  all_goals
    constructor
    · rw [minValue_eq]
      omega
    · rw [maxValue_eq]
      omega

theorem bare_assignments (s : Settings) : ∀ e ∈ s.assignments, Toml.Bare e.1 := by
  have htimeout : Toml.Bare "timeout_ms" := ⟨by decide, by decide⟩
  have hpriority : Toml.Bare "priority" := ⟨by decide, by decide⟩
  have hprefetch : Toml.Bare "prefetch_count" := ⟨by decide, by decide⟩
  simp [assignments, htimeout, hpriority, hprefetch]

theorem nodup_assignments : (s.assignments.map Prod.fst).Nodup := by
  simp [assignments]

/-! Lines that are dropped. -/

/-- The text without the lines that are not kept. The lines are counted from `line` on, and each ends
behind its line end. -/
def keepLines (keep : Nat → Bool) : (line : Nat) → List Char → List Char
  | _, [] => []
  | line, c :: s =>
    let rest := keepLines keep (if c = '\n' then line + 1 else line) s
    if keep line then c :: rest else rest

theorem keepLines_append {cs : List Char} (h : '\n' ∉ cs) (line : Nat) (s : List Char) :
    keepLines keep line (cs ++ '\n' :: s) =
      (if keep line then cs ++ ['\n'] else []) ++ keepLines keep (line + 1) s := by
  induction cs with
  | nil => cases hkeep : keep line <;> simp [keepLines, hkeep]
  | cons c cs ih =>
    simp only [List.mem_cons, not_or] at h
    have hc : c ≠ '\n' := Ne.symm h.1
    cases hkeep : keep line <;> simp_all [keepLines]

/-- The members of a list that are kept, which are counted from `n` on. -/
def pick {α : Type} (keep : Nat → Bool) (n : Nat) (xs : List α) : List α :=
  ((xs.zipIdx n).filter fun x => keep x.2).map Prod.fst

theorem pick_sublist {α : Type} (keep : Nat → Bool) (n : Nat) (xs : List α) :
    (pick keep n xs).Sublist xs := by
  have h : (pick keep n xs).Sublist ((xs.zipIdx n).map Prod.fst) := List.filter_sublist.map Prod.fst
  rwa [List.zipIdx_map_fst] at h

theorem pick_cons {α : Type} (keep : Nat → Bool) (n : Nat) (x : α) (xs : List α) :
    pick keep n (x :: xs) = (if keep n then [x] else []) ++ pick keep (n + 1) xs := by
  cases hkeep : keep n <;> simp [pick, hkeep]

theorem keepLines_document (hbare : ∀ e ∈ doc, Toml.Bare e.1) (n : Nat) :
    keepLines keep n (Toml.document doc) = Toml.document (pick keep n doc) := by
  induction doc generalizing n with
  | nil => rfl
  | cons e doc ih =>
    obtain ⟨he, hdoc⟩ := List.forall_mem_cons.1 hbare
    obtain ⟨cs, hcs, hline⟩ := Toml.assignmentLine_eq he e.2
    have hrest := ih hdoc (n + 1)
    have hsplit : Toml.document (e :: doc) = cs ++ '\n' :: Toml.document doc := by
      simp [Toml.document, hline]
    rw [hsplit, keepLines_append hcs, hrest, pick_cons]
    cases hkeep : keep n <;> simp [Toml.document, hline]

/-! What is read. -/

/-- The settings of which some are replaced by their defaults: those of the lines that are not
kept. -/
def kept (keep : Nat → Bool) (s : Settings) : Settings where
  timeoutMs := if keep 0 then s.timeoutMs else ({} : Settings).timeoutMs
  priority := if keep 1 then s.priority else ({} : Settings).priority
  prefetchCount := if keep 2 then s.prefetchCount else ({} : Settings).prefetchCount

/-- The settings if they are valid, and otherwise the first that must not be zero. -/
def accepted (s : Settings) : Except SettingsError Settings :=
  if s.timeoutMs = 0 then .error (.notPositive "timeout_ms")
  else if s.prefetchCount = 0 then .error (.notPositive "prefetch_count")
  else .ok s

/-- The entries of the lines that are kept. -/
def keptEntries (keep : Nat → Bool) (s : Settings) : Toml.Entries :=
  Toml.assigned (pick keep 0 s.assignments)

theorem lookup_pick_of_not_mem {name : String} (h : name ∉ doc.map Prod.fst)
    (keep : Nat → Bool) (n : Nat) : (Toml.assigned (pick keep n doc)).lookup name = none := by
  induction doc generalizing n with
  | nil => rfl
  | cons e doc ih =>
    simp only [List.map_cons, List.mem_cons, not_or] at h
    have hrest := ih h.2 (n + 1)
    rw [pick_cons]
    split
    · rw [List.singleton_append, Toml.lookup_assigned_cons, if_neg h.1, hrest]
    · exact hrest

/-- A name is assigned if the line is kept that assigns it. -/
theorem lookup_pick {name : String} {i : Int} {k : Nat} (hnodup : (doc.map Prod.fst).Nodup)
    (hk : doc[k]? = some (name, i)) (keep : Nat → Bool) (n : Nat) :
    (Toml.assigned (pick keep n doc)).lookup name =
      if keep (n + k) then some (.value (.integer i)) else none := by
  induction doc generalizing k n with
  | nil => simp at hk
  | cons e doc ih =>
    obtain ⟨hother, hnodup⟩ := List.nodup_cons.1 hnodup
    rw [pick_cons]
    cases k with
    | zero =>
      obtain rfl : e = (name, i) := by simpa using hk
      have hnone := lookup_pick_of_not_mem hother keep (n + 1)
      cases hkeep : keep n
      · simpa [hkeep] using hnone
      · simp [Toml.lookup_assigned_cons]
    | succ k =>
      have hk : doc[k]? = some (name, i) := by simpa using hk
      have hmem : name ∈ doc.map Prod.fst :=
        List.mem_map_of_mem (f := Prod.fst) (List.mem_of_getElem? hk)
      have hne : name ≠ e.1 := fun heq => hother (heq ▸ hmem)
      have hrest := ih hnodup hk (n + 1)
      rw [Nat.add_right_comm] at hrest
      rw [← Nat.add_assoc]
      split
      · rw [List.singleton_append, Toml.lookup_assigned_cons, if_neg hne, hrest]
      · exact hrest

theorem lookup_kept {name : String} {i : Int} {k : Nat} (h : s.assignments[k]? = some (name, i))
    (keep : Nat → Bool) :
    (s.keptEntries keep).lookup name = if keep k then some (.value (.integer i)) else none := by
  have hlookup := lookup_pick nodup_assignments h keep 0
  rwa [Nat.zero_add] at hlookup

/-- A setting within its bounds is read, or has its default. -/
theorem integer?_of_lookup {entries : Toml.Entries} {name : String} {i : Int} {b : Bool}
    (h : entries.lookup name = if b then some (.value (.integer i)) else none)
    {low high : Int} (hlow : low ≤ i) (hhigh : i ≤ high) (default : Int) :
    integer? entries name low high default = .ok (if b then i else default) := by
  cases b with
  | false =>
    simp only [Bool.false_eq_true, if_false] at h
    simp [integer?, h]
  | true =>
    simp only [if_true] at h
    simp [integer?, h, hlow, hhigh]

theorem ofEntries_kept (s : Settings) (keep : Nat → Bool) :
    ofEntries (s.keptEntries keep) = .ok (s.kept keep) := by
  have hsize : UInt64.size = 2 ^ 64 ∧ UInt16.size = 2 ^ 16 := ⟨rfl, rfl⟩
  have htimeout : (s.timeoutMs.toNat : Int) ≤ UInt64.size - 1 := by
    have := s.timeoutMs.toNat_lt
    omega
  have hprefetch : (s.prefetchCount.toNat : Int) ≤ UInt16.size - 1 := by
    have := s.prefetchCount.toNat_lt
    omega
  have hread₀ := integer?_of_lookup (lookup_kept (s := s) (k := 0) rfl keep) (Int.natCast_nonneg _) htimeout
  have hread₁ := integer?_of_lookup (lookup_kept (s := s) (k := 1) rfl keep) s.priority.minValue_le_toInt
    s.priority.toInt_le
  have hread₂ := integer?_of_lookup (lookup_kept (s := s) (k := 2) rfl keep) (Int.natCast_nonneg _) hprefetch
  simp only [ofEntries, hread₀, hread₁, hread₂, bind, Except.bind, pure, Except.pure]
  cases h0 : keep 0 <;> cases h1 : keep 1 <;> cases h2 : keep 2 <;> simp [kept, h0, h1, h2]

theorem ofToml_of_read {entries : Toml.Entries} (hread : Toml.read? text = some entries)
    (hs : ofEntries entries = .ok s) : ofToml text = s.accepted := by
  simp only [ofToml, hread, hs, bind, Except.bind, validate, accepted]
  by_cases htimeout : s.timeoutMs = 0
  · simp [htimeout]
  · by_cases hprefetch : s.prefetchCount = 0
    · simp [htimeout, hprefetch]
    · simp [htimeout, hprefetch, pure, Except.pure]

/-- The lines of a document that are kept are read as the settings of these lines. -/
theorem ofToml_keepLines (h : s.timeoutMs.toNat ≤ 2 ^ 63 - 1) (keep : Nat → Bool) :
    ofToml (String.ofList (keepLines keep 0 (Toml.document s.assignments))) =
      (s.kept keep).accepted := by
  have hsub := pick_sublist keep 0 s.assignments
  have hread : Toml.read? (String.ofList (Toml.document (pick keep 0 s.assignments))) =
      some (s.keptEntries keep) := by
    apply Toml.read?_document
    · exact fun e he => bare_assignments s e (hsub.subset he)
    · exact fun e he => fits_assignments h e (hsub.subset he)
    · exact nodup_assignments.sublist (hsub.map Prod.fst)
  rw [keepLines_document (bare_assignments s)]
  exact ofToml_of_read hread (ofEntries_kept s keep)

theorem keepLines_true (n : Nat) (s : List Char) : keepLines (fun _ => true) n s = s := by
  induction s generalizing n with
  | nil => rfl
  | cons c s ih => simp [keepLines, ih]

/-- Only valid settings are read. -/
theorem validate_of_ofToml (h : ofToml text = .ok t) : t.validate = .ok () := by
  unfold ofToml at h
  split at h
  · contradiction
  · next entries hread =>
    cases hs : ofEntries entries with
    | error e => simp [hs, bind, Except.bind] at h
    | ok s =>
      cases hvalid : s.validate with
      | error e => simp [hs, hvalid, bind, Except.bind] at h
      | ok u =>
        simp only [hs, hvalid, bind, Except.bind, pure, Except.pure, Except.ok.injEq] at h
        rw [← h, hvalid]

/-- Settings are refused by the writer just if their timeout exceeds the integers of TOML. What is
written is read as it was if it is valid, and as the first that is invalid otherwise; without some of
the lines it is read with the defaults of these. No text is read as settings that are invalid. -/
theorem documents_keep_settings (s : Settings) :
    (s.toToml = .error .unwritable ↔ 2 ^ 63 - 1 < s.timeoutMs.toNat) ∧
    (∀ e, s.toToml = .error e → e = .unwritable) ∧
    (∀ text, s.toToml = .ok text → ofToml text = s.accepted ∧
      ∀ keep, ofToml (String.ofList (keepLines keep 0 text.toList)) = (s.kept keep).accepted) ∧
    ∀ text t, ofToml text = .ok t → t.validate = .ok () := by
  by_cases hlt : 2 ^ 63 - 1 < s.timeoutMs.toNat
  · have hwrite := toToml_of_lt hlt
    refine ⟨iff_of_true hwrite hlt, ?_, ?_, fun text t => validate_of_ofToml⟩
    · simp [hwrite]
    · simp [hwrite]
  · have hle := Nat.le_of_not_lt hlt
    have hwrite := toToml_of_le hle
    refine ⟨iff_of_false (by simp [hwrite]) hlt, ?_, ?_, fun text t => validate_of_ofToml⟩
    · simp [hwrite]
    · intro text htext
      obtain rfl := Except.ok.inj (hwrite.symm.trans htext)
      have hread := ofToml_keepLines hle
      rw [String.toList_ofList]
      refine ⟨?_, hread⟩
      simpa [keepLines_true, kept] using hread fun _ => true

/-- The greatest timeout that TOML can write, and a prefetch count that is not valid. -/
def unfetching : Settings where
  timeoutMs := 9223372036854775807
  priority := -3
  prefetchCount := 0

/-- They are not read, but with the default in the place of the prefetch count they are. -/
theorem unfetching_without_last_line :
    ∃ text, unfetching.toToml = .ok text ∧
      ofToml text = .error (.notPositive "prefetch_count") ∧
      ofToml (String.ofList (keepLines (· != 2) 0 text.toList)) =
        .ok { unfetching with prefetchCount := 10000 } := by
  have hwrite := toToml_of_le (s := unfetching) (by decide)
  obtain ⟨hread, hdropped⟩ := (documents_keep_settings unfetching).2.2.1 _ hwrite
  refine ⟨_, hwrite, ?_, ?_⟩
  · rw [hread]
    rfl
  · rw [hdropped]
    rfl

end Intercept.Settings
