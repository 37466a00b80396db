import Typeahead.Settings.Reader
import Typeahead.Text.Utf8

/-! What goes wrong when a settings file is read. -/

namespace Typeahead.Yaml

/-- Why a settings file has no value. -/
inductive Error where
  /-- It does not follow the rules of the format. -/
  | malformed
  | undecodable (fault : Utf8.Fault)
  /-- An escape above the last code point. -/
  | codePoint
  /-- An escape that does not even fit into a word. -/
  | word
  /-- A number without digits. -/
  | numeral (base : Nat)
  /-- A number with more digits than are ever read. -/
  | digits (count : Nat)
  /-- A number in base sixty with a part that stands for too much. -/
  | weight
  | timestamp (error : TimestampError)
  deriving DecidableEq, Repr

namespace Error

/-- How an error is reported. -/
def message : Error → String
  | .malformed => "YAMLError"
  | .undecodable fault => fault.message
  | .codePoint => "chr() arg not in range(0x110000)"
  | .word => "Python int too large to convert to C int"
  | .numeral base => "invalid literal for int() with base " ++ toString base ++ ": ''"
  | .digits count =>
    "Exceeds the limit (" ++ toString Value.longestNumber ++
      " digits) for integer string conversion: value has " ++ toString count ++
      " digits; use sys.set_int_max_str_digits() to increase the limit"
  | .weight => "int too large to convert to float"
  | .timestamp error => error.message

/-- The class of an error, by its name and family. -/
def type : Error → String × Settings.FailureFamily
  | .malformed => ("YAMLError", .format)
  | .undecodable _ => ("UnicodeDecodeError", .value)
  | .word | .weight => ("OverflowError", .other)
  | _ => ("ValueError", .value)

/-- An error as a reader gives it. -/
def toReadError (e : Error) : Settings.ReadError :=
  ⟨e.type.1, e.type.2, e.message⟩

end Error

end Typeahead.Yaml
