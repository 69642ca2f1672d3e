import Intercept.Report
import Intercept.Proofs.Text.Quoted

/-! The text of a report tells what the waiter had seen, and no sample can add a line or another
sample to it. -/
namespace Intercept
namespace TimeoutReport
variable {a b r : TimeoutReport} {label : String} {samples samples' : List String}
  {prefetch prefetch' : Option (Nat × Nat)} {rest rest' : List String} {line : String}

/-- The caller's texts stay on one line. -/
structure KeepsLines (r : TimeoutReport) : Prop where
  description : '\n' ∉ r.description.toList
  context : '\n' ∉ r.context.toList

/-- Two reports are the same but for timeouts that are told alike. -/
structure Agrees (a b : TimeoutReport) : Prop where
  description : a.description = b.description
  context : a.context = b.context
  reason : a.reason = b.reason
  timeout : a.timeout.humanReadable = b.timeout.humanReadable
  messageCount : a.messageCount = b.messageCount
  observed : a.observed = b.observed
  malformed : a.malformed = b.malformed
  predicateFailures : a.predicateFailures = b.predicateFailures
  prefetch : a.prefetch = b.prefetch

/-! The lines that may be left out. -/

/-- Whether a line is indented and begins with this word. -/
def begins (word : String) (line : String) : Bool := ('\t' :: word.toList).isPrefixOf line.toList

theorem begins_of_mem_sampleLine (h : line ∈ sampleLine label samples) :
    begins label line = true := by
  unfold sampleLine at h
  split at h
  · simp at h
  · rw [List.mem_singleton.1 h]
    simp [begins]

theorem sampleLine_inj (h : sampleLine label samples = sampleLine label samples') :
    samples = samples' := by
  unfold sampleLine at h
  cases samples with
  | nil =>
    cases samples' with
    | nil => rfl
    | cons sample samples' => simp at h
  | cons sample samples =>
    cases samples' with
    | nil => simp at h
    | cons sample' samples' =>
      apply Text.quoteList_injective
      simpa using h

/-- A line of samples tells them, and whether it is there, unless the next line has its label. -/
theorem sampleLine_append_inj (hs : ∀ line ∈ rest.head?, begins label line = false)
    (ht : ∀ line ∈ rest'.head?, begins label line = false)
    (h : sampleLine label samples ++ rest = sampleLine label samples' ++ rest') :
    samples = samples' ∧ rest = rest' := by
  obtain ⟨hline, hrest⟩ := Text.append_inj_of_head (fun _ hl => begins_of_mem_sampleLine hl)
    (fun _ hl => begins_of_mem_sampleLine hl) hs ht h
  exact ⟨sampleLine_inj hline, hrest⟩

theorem begins_of_mem_prefetchLine (h : line ∈ prefetchLine prefetch) :
    begins "prefetchCount" line = true := by
  cases prefetch with
  | none => simp [prefetchLine] at h
  | some window =>
    rw [List.mem_singleton.1 h]
    simp [begins]

theorem prefetchLine_inj (h : prefetchLine prefetch = prefetchLine prefetch') :
    prefetch = prefetch' := by
  cases prefetch with
  | none =>
    cases prefetch' with
    | none => rfl
    | some window' => simp [prefetchLine] at h
  | some window =>
    cases prefetch' with
    | none => simp [prefetchLine] at h
    | some window' =>
      obtain ⟨count, last⟩ := window
      obtain ⟨count', last'⟩ := window'
      simp only [prefetchLine, Nat.toString_eq_repr, List.cons.injEq, and_true,
        ← String.toList_inj, String.toList_append, Nat.toList_repr, List.append_assoc,
        List.append_cancel_left_eq] at h
      obtain ⟨hcount, hrest⟩ := Text.toDigits_append_inj (by simp) (by simp) h
      obtain ⟨hlast, -⟩ := Text.toDigits_append_inj (by simp) (by simp) (List.append_cancel_left hrest)
      rw [hcount, hlast]

theorem prefetchLine_append_inj (hs : ∀ line ∈ rest.head?, begins "prefetchCount" line = false)
    (ht : ∀ line ∈ rest'.head?, begins "prefetchCount" line = false)
    (h : prefetchLine prefetch ++ rest = prefetchLine prefetch' ++ rest') :
    prefetch = prefetch' ∧ rest = rest' := by
  obtain ⟨hline, hrest⟩ := Text.append_inj_of_head (fun _ hl => begins_of_mem_prefetchLine hl)
    (fun _ hl => begins_of_mem_prefetchLine hl) hs ht h
  exact ⟨prefetchLine_inj hline, hrest⟩

/-! A line that may be left out is not taken for the one that follows it. -/

theorem not_begins_behind_malformed :
    ∀ line ∈ (sampleLine "predicateFailures" samples ++
      s!"\tmessageCount = {r.messageCount}" :: rest).head?,
    begins "malformedMessages" line = false := by
  cases samples <;> simp [sampleLine, begins, List.isPrefixOf]

theorem not_begins_behind_failures :
    ∀ line ∈ (s!"\tmessageCount = {r.messageCount}" :: rest).head?,
    begins "predicateFailures" line = false := by
  simp [begins, List.isPrefixOf]

theorem not_begins_behind_prefetch :
    ∀ line ∈ (("\tcontext = \"" ++ r.context ++ "\"") :: rest).head?,
    begins "prefetchCount" line = false := by
  simp [begins, List.isPrefixOf]

/-! Line by line. -/

theorem newline_not_mem_quoteList (samples : List String) :
    '\n' ∉ (Text.quoteList samples).toList := by
  intro h
  exact Text.not_lineBreak_of_mem_quoteList h (by decide)

theorem newline_not_mem_sampleLine (hlabel : '\n' ∉ label.toList)
    (h : line ∈ sampleLine label samples) : '\n' ∉ line.toList := by
  unfold sampleLine at h
  split at h
  · simp at h
  · rw [List.mem_singleton.1 h]
    simp [hlabel, newline_not_mem_quoteList]

theorem newline_not_mem_prefetchLine (h : line ∈ prefetchLine prefetch) :
    '\n' ∉ line.toList := by
  cases prefetch with
  | none => simp [prefetchLine] at h
  | some window =>
    rw [List.mem_singleton.1 h]
    simp [Text.newline_not_mem_toDigits]

theorem newline_not_mem_humanReadable (d : Duration) : '\n' ∉ d.humanReadable.toList := by
  simp only [Duration.humanReadable]
  split
  · simp
  split
  · simp [Text.newline_not_mem_toDigits]
  split
  · simp [Text.newline_not_mem_toDigits]
  split
  · simp [Text.newline_not_mem_toDigits]
  · simp [Text.newline_not_mem_toDigits]

theorem newline_not_mem_reason (reason : TimeoutReason) : '\n' ∉ reason.text.toList := by
  cases reason <;> simp [TimeoutReason.text]

theorem newline_not_mem_lines (h : r.KeepsLines) (hline : line ∈ r.lines) :
    '\n' ∉ line.toList := by
  simp only [lines, List.mem_append, List.mem_cons, List.not_mem_nil, or_false] at hline
  obtain ((((hopening | hmalformed) | hfailures) | hcounts) | hprefetch) | hclosing := hline
  · obtain rfl | rfl | rfl | rfl | rfl := hopening <;>
      simp [h.description, newline_not_mem_quoteList]
  · exact newline_not_mem_sampleLine (by simp) hmalformed
  · exact newline_not_mem_sampleLine (by simp) hfailures
  · obtain rfl | rfl := hcounts
    · simp [Text.newline_not_mem_toDigits]
    · simp [newline_not_mem_humanReadable]
  · exact newline_not_mem_prefetchLine hprefetch
  · obtain rfl | rfl := hclosing
    · simp [h.context]
    · simp [newline_not_mem_reason]

/-- The text breaks between its lines and nowhere else. -/
theorem splitOn_text (h : r.KeepsLines) :
    r.text.toList.splitOn '\n' = r.lines.map String.toList := by
  have hkept : ∀ line ∈ r.lines.map String.toList, '\n' ∉ line := by
    intro line hline
    obtain ⟨line, hmem, rfl⟩ := List.mem_map.1 hline
    exact newline_not_mem_lines h hmem
  have hsome : r.lines.map String.toList ≠ [] := by simp [lines]
  rw [text, String.toList_intercalate]
  exact List.splitOn_intercalate '\n' hkept hsome

theorem lines_of_text (ha : a.KeepsLines) (hb : b.KeepsLines) (h : a.text = b.text) :
    a.lines = b.lines := by
  have hsplit := congrArg (fun s => s.toList.splitOn '\n') h
  simp only [splitOn_text ha, splitOn_text hb] at hsplit
  exact List.map_injective_iff.2 (fun _ _ => String.toList_inj.1) hsplit

theorem reason_of_text {x y : TimeoutReason} (h : x.text = y.text) : x = y := by
  cases x <;> cases y <;> simp_all [TimeoutReason.text]

/-- Each line tells one part of the report. -/
theorem agrees_of_lines (h : a.lines = b.lines) : a.Agrees b := by
  simp only [lines, List.cons_append, List.nil_append, List.append_assoc, List.cons.injEq,
    true_and] at h
  obtain ⟨hdescription, hobserved, hsamples⟩ := h
  obtain ⟨hmalformed, hsamples⟩ :=
    sampleLine_append_inj not_begins_behind_malformed not_begins_behind_malformed hsamples
  obtain ⟨hfailures, hcounts⟩ :=
    sampleLine_append_inj not_begins_behind_failures not_begins_behind_failures hsamples
  simp only [List.cons.injEq] at hcounts
  obtain ⟨hcount, htimeout, hprefetch⟩ := hcounts
  obtain ⟨hprefetch, hclosing⟩ :=
    prefetchLine_append_inj not_begins_behind_prefetch not_begins_behind_prefetch hprefetch
  simp only [List.cons.injEq, and_true] at hclosing
  obtain ⟨hcontext, hreason⟩ := hclosing
  constructor
  case messageCount =>
    apply Text.toDigits_inj
    simpa [← String.toList_inj] using hcount
  case observed => exact Text.quoteList_injective (by simpa using hobserved)
  case malformed => exact hmalformed
  case predicateFailures => exact hfailures
  case prefetch => exact hprefetch
  case reason => exact reason_of_text (by simpa using hreason)
  case description => simpa using hdescription
  case context => simpa using hcontext
  case timeout => simpa using htimeout

theorem Agrees.lines (h : a.Agrees b) : a.lines = b.lines := by
  simp only [TimeoutReport.lines, h.description, h.context, h.reason, h.timeout, h.messageCount,
    h.observed, h.malformed, h.predicateFailures, h.prefetch]

/-- Texts of reports are the same just if the reports are, but for timeouts that are told alike.
Samples are told apart whatever they hold, and a list of them shows printable characters only and
stands on one line, so that a text has the lines of its report. -/
theorem texts_tell_reports_apart :
    (∀ a b : TimeoutReport, a.KeepsLines → b.KeepsLines → (a.text = b.text ↔ a.Agrees b)) ∧
    (∀ r : TimeoutReport, r.KeepsLines →
      r.text.toList.splitOn '\n' = r.lines.map String.toList) ∧
    Function.Injective Text.quoteList ∧
    ∀ samples, ∀ c ∈ (Text.quoteList samples).toList,
      Text.isUnprintable c = false ∧ c ∉ Text.lineBreaks := by
  refine ⟨fun a b ha hb => ⟨fun h => ?_, fun h => ?_⟩, fun r hr => splitOn_text hr,
    Text.quoteList_injective, fun samples c hc => ⟨?_, ?_⟩⟩
  · exact agrees_of_lines (lines_of_text ha hb h)
  · rw [text, text, h.lines]
  · exact Text.printable_of_mem_quoteList hc
  · exact Text.not_lineBreak_of_mem_quoteList hc

/-- A report of one sample that reads like two. -/
def oneSample : TimeoutReport where
  description := "an order"
  context := "orders"
  reason := .afterAwait
  timeout := .ofMillis 5000
  messageCount := 2
  observed := ["a\", \"b"]
  malformed := []
  predicateFailures := []

/-- A report of the two samples. -/
def twoSamples : TimeoutReport := { oneSample with observed := ["a", "b"] }

theorem one_sample_is_not_two :
    oneSample.KeepsLines ∧ twoSamples.KeepsLines ∧ oneSample.text ≠ twoSamples.text := by
  have hone : oneSample.KeepsLines := ⟨by decide, by decide⟩
  have htwo : twoSamples.KeepsLines := ⟨by decide, by decide⟩
  refine ⟨hone, htwo, fun h => ?_⟩
  have hobserved := ((texts_tell_reports_apart.1 oneSample twoSamples hone htwo).1 h).observed
  exact absurd hobserved (by decide)

end TimeoutReport
end Intercept
