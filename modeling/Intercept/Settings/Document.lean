import Intercept.Settings.Basic
import Intercept.Settings.Error
import Intercept.Text.Utf8
import Intercept.Toml.Document

/-!
Settings as a TOML document: one line for each setting when it is written, and any document when it
is read, in which a missing setting has its default and unknown keys do not matter.
-/

namespace Intercept.Settings

/-- The settings, or the first of them that is zero and must not be. -/
def validate (s : Settings) : Except SettingsError Unit :=
  if s.timeoutMs = 0 then .error (.notPositive "timeout_ms")
  else if s.prefetchCount = 0 then .error (.notPositive "prefetch_count")
  else .ok ()

/-- An integer setting between two bounds; a missing one has its default. -/
def integer? (entries : Toml.Entries) (name : String) (low high default : Int) :
    Except SettingsError Int :=
  match entries.lookup name with
  | none => .ok default
  | some (.value (.integer n)) => if low ≤ n && n ≤ high then .ok n else .error .malformed
  | some _ => .error .malformed

/-- The settings that the entries of a document assign, which may be invalid. -/
def ofEntries (entries : Toml.Entries) : Except SettingsError Settings := do
  let defaults : Settings := {}
  let timeoutMs ← integer? entries "timeout_ms" 0 (UInt64.size - 1) defaults.timeoutMs.toNat
  let priority ← integer? entries "priority" Int32.minValue.toInt Int32.maxValue.toInt
    defaults.priority.toInt
  let prefetchCount ← integer? entries "prefetch_count" 0 (UInt16.size - 1)
    defaults.prefetchCount.toNat
  return {
    timeoutMs := .ofNat timeoutMs.toNat
    priority := .ofInt priority
    prefetchCount := .ofNat prefetchCount.toNat }

/-- Reads a document. The settings must be valid. -/
def ofToml (text : String) : Except SettingsError Settings :=
  match Toml.read? text with
  | none => .error .malformed
  | some entries => do
    let s ← ofEntries entries
    s.validate
    return s

/-- Reads a document from a file. -/
def ofFile (file : Except FileError Body) : Except SettingsError Settings :=
  match file with
  | .error e => .error (.file e)
  | .ok body =>
    match Utf8.strict? body with
    | none => .error (.file .notText)
    | some text => ofToml text

/-- The line of a document that assigns an integer. -/
def assignment (name : String) (n : Int) : String := s!"{name} = {n}\n"

/-- Writes a document. The integers of TOML have 64 bits and a sign. -/
def toToml (s : Settings) : Except SettingsError String :=
  if Int64.maxValue.toInt < s.timeoutMs.toNat then .error .unwritable
  else .ok (assignment "timeout_ms" s.timeoutMs.toNat ++ assignment "priority" s.priority.toInt ++
    assignment "prefetch_count" s.prefetchCount.toNat)

end Intercept.Settings
