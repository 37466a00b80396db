import Typeahead.Settings.Value

/-! What a reader of settings files gives. The settings are the same whatever format it reads. -/

namespace Typeahead.Settings

/-- The families of failures that are told apart. -/
inductive FailureFamily where
  /-- The system refuses something. -/
  | system
  /-- A value is none of its type. -/
  | value
  /-- The rules of the format are broken. -/
  | format
  | other
  deriving DecidableEq, Repr

/-- Why the content of a settings file has no value. -/
structure ReadError where
  /-- The name of its class. -/
  type : String
  family : FailureFamily
  message : String
  deriving DecidableEq, Repr

/-- Whether a file with this error is only reported. -/
def ReadError.isReported (e : ReadError) : Bool :=
  e.family ≠ .other

/-- Gives the value of the content of a settings file. -/
abbrev Reader : Type :=
  List UInt8 → Except ReadError Value

end Typeahead.Settings
