/-!
Why a file or a document of settings was refused.
-/

namespace Intercept

inductive FileError where
  | missing
  /-- The file does not hold UTF-8. -/
  | notText
  | other (reason : String)
  deriving DecidableEq, Repr

def FileError.message : FileError → String
  | .missing => "No such file or directory (os error 2)"
  | .notText => "stream did not contain valid UTF-8"
  | .other reason => reason

inductive SettingsError where
  | file (error : FileError)
  /-- The document is not TOML, or a setting has a value of the wrong type or out of range. -/
  | malformed
  /-- A setting is too great for the integers of TOML. -/
  | unwritable
  /-- A setting is zero that must not be. -/
  | notPositive (name : String)
  deriving DecidableEq, Repr

namespace SettingsError

def malformedText : String := "malformed settings"

def unwritableText : String := "out-of-range value for u64 type"

def message : SettingsError → String
  | .file e => "I/O error: " ++ e.message
  | .malformed => "TOML parse error: " ++ malformedText
  | .unwritable => "TOML serialize error: " ++ unwritableText
  | .notPositive name => "Invalid configuration: " ++ name ++ " must be positive"

/-- What lies behind the error, if anything does. -/
def causes : SettingsError → List String
  | .file e => [e.message]
  | .malformed => [malformedText]
  | .unwritable => [unwritableText]
  | .notPositive _ => []

end SettingsError
end Intercept
