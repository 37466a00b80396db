import Typeahead.Cursor
import Typeahead.Filter
import Typeahead.SymbolTable

/-! What may be typed at a caret: keywords that the grammar takes there, then declared names. -/

namespace Typeahead

/-- A completion candidate. -/
structure Suggestion where
  label : String
  /-- What a name stands for; `none` for a keyword. -/
  symbol : Option SymbolKind
  deriving DecidableEq, Repr

namespace Suggestion

/-- The word for the kind of a suggestion. -/
def kindLabel (s : Suggestion) : String :=
  match s.symbol with
  | none => "keyword"
  | some kind => kind.label

/-- Drops every suggestion whose label is among the seen ones or came before. -/
def distinctFrom (seen : List String) : List Suggestion → List Suggestion
  | [] => []
  | s :: rest =>
    if seen.contains s.label then
      distinctFrom seen rest
    else
      s :: distinctFrom (s.label :: seen) rest

/-- Keeps the first suggestion with each label. -/
def distinct (suggestions : List Suggestion) : List Suggestion :=
  distinctFrom [] suggestions

/-- The literal texts of terminals; words only, unless operators are wanted too. -/
def literals (operators : Bool) (terminals : List Terminal) : List String :=
  (terminals.filter fun t => t.isKeyword || operators).filterMap Terminal.literal?

/-- The suggestions where the grammar takes the given terminals and `typed` has been typed. -/
def ofExpected (filter : Filter) (operators : Bool) (table : SymbolTable) (typed : String)
    (expected : List Terminal) : List Suggestion :=
  let keywords := (filter.keep typed (literals operators expected)).map (⟨·, none⟩)
  let names := filter.keep typed table.names
  let symbols :=
    if expected.contains .name then
      (table.filter fun entry => names.contains entry.name).map fun entry =>
        ⟨entry.name, some entry.kind⟩
    else
      []
  distinct (keywords ++ symbols)

/-- The suggestions at a cursor. -/
def atCursor (filter : Filter) (operators : Bool) (p : Parse) (table : SymbolTable)
    (cursor : Cursor) : List Suggestion :=
  ofExpected filter operators table cursor.typed (expectedTerminals p.tokens cursor.index)

/-- The suggestions at a caret. -/
def suggest (filter : Filter) (operators : Bool) (p : Parse) (table : SymbolTable) (c : Caret) :
    List Suggestion :=
  atCursor filter operators p table (Cursor.locate p c)

end Suggestion

end Typeahead
