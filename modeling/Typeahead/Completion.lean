import Typeahead.Import
import Typeahead.Suggestion

/-! Completion of one document: its own names, those of its imports, and the suggestions. -/

namespace Typeahead

/-- How completion is wanted. -/
structure CompletionOptions where
  filter : Filter := .fuzzy
  operators : Bool := false

/-- What a request for completion brings: the warnings on the way, and suggestions or the error that
stopped it. -/
structure Completion where
  warnings : List ImportWarning
  result : Except ImportError (List Suggestion)

namespace Completion

/-- Visits a parsed document, and then the files that it imports. A document without imports needs
no location. -/
def visited (fs : FileSystem) (cwd location : String) (p : Parse) : Resolver :=
  let own := Visitor.visitFile {} p.tree (some location)
  match Import.ofTree p.tree with
  | [] => { visitor := own }
  | imports => Resolver.resolve fs cwd location imports own

/-- Completes a document at a caret. -/
def collect (options : CompletionOptions) (fs : FileSystem) (cwd location text : String)
    (c : Caret) : Completion :=
  let p := parse text
  let found := visited fs cwd location p
  { warnings := found.warnings
    result :=
      match found.error with
      | some e => .error e
      | none =>
        .ok (Suggestion.suggest options.filter options.operators p found.visitor.table c) }

end Completion

end Typeahead
