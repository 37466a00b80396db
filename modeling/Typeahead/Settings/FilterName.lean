import Typeahead.Filter
import Typeahead.Settings.Value

/-! The filter that a value names. -/

namespace Typeahead

/-- Why a value names no filter. -/
inductive FilterNameError where
  /-- The text of the value as it is shown. -/
  | unknown (shown : String)
  /-- A number with more digits than are ever shown. -/
  | endless
  /-- A value of a type that cannot be looked up among names. -/
  | unhashable (type : String)
  deriving DecidableEq, Repr

namespace FilterNameError

/-- How an error is reported. -/
def message : FilterNameError → String
  | .unknown shown =>
    "Unknown token filter " ++ shown ++ " (expected one of: fuzzy, none, prefix)"
  | .endless =>
    "Exceeds the limit (" ++ toString Value.longestNumber ++
      " digits) for integer string conversion; " ++
      "use sys.set_int_max_str_digits() to increase the limit"
  | .unhashable type => "unhashable type: '" ++ type ++ "'"

/-- Whether the value could not even be looked up. -/
def isLookupFailure : FilterNameError → Bool
  | .unknown _ | .endless => false
  | .unhashable _ => true

end FilterNameError

namespace Filter

/-- The filter that a value names. -/
def ofValue : Value → Except FilterNameError Filter
  | .str s =>
    match ofLabel? s with
    | some f => .ok f
    | none => .error (.unknown (Text.quoted s))
  | .fragments points => .error (.unknown (Text.quotedPoints points))
  | .null => .error (.unknown "None")
  | .bool true => .error (.unknown "True")
  | .bool false => .error (.unknown "False")
  | .int n =>
    if Nat.pow 10 Value.longestNumber ≤ n.natAbs then .error .endless
    else .error (.unknown (Value.decimal n))
  | .float x => .error (.unknown (Text.shownFloat x))
  | .timestamp t => .error (.unknown t.shown)
  | .list _ => .error (.unhashable "list")
  | .map _ => .error (.unhashable "dict")
  | .object o => .error (if o.hashable then .unknown o.shown else .unhashable o.type)

end Filter

end Typeahead
