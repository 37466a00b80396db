/-! What the server tells the editor, and what it offers it. -/

namespace Typeahead

/-- How serious a message is. -/
inductive Severity where
  | error
  | warning
  | info
  | log
  deriving DecidableEq, Repr

namespace Severity

/-- The number of a severity in the protocol. -/
def code : Severity → Nat
  | .error => 1
  | .warning => 2
  | .info => 3
  | .log => 4

end Severity

/-- A message to the editor: for its log, for its user, or a request to be told of something. -/
inductive Message where
  | log (severity : Severity) (text : String)
  | popup (severity : Severity) (text : String)
  | register (method : String)
  deriving DecidableEq, Repr

/-- A completion item. -/
structure Item where
  label : String
  kind : Option Int := none
  detail : Option String := none
  deriving DecidableEq, Repr

/-- Completion items, and whether more may come. -/
structure ItemList where
  incomplete : Bool := false
  items : List Item := []
  deriving DecidableEq, Repr

end Typeahead
