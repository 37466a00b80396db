import Typeahead.Text.Lowercase

/-! Narrowing candidates to what has been typed. -/

namespace Typeahead

/-- How candidates are matched with what has been typed. -/
inductive Filter where
  | fuzzy
  | beginning
  | everything
  deriving DecidableEq, Repr

namespace Filter

/-- The name of a filter in the settings. -/
def label : Filter → String
  | .fuzzy => "fuzzy"
  | .beginning => "prefix"
  | .everything => "none"

/-- The filter with a given name. -/
def ofLabel? : String → Option Filter
  | "fuzzy" => some .fuzzy
  | "prefix" => some .beginning
  | "none" => some .everything
  | _ => none

/-- Whether a candidate passes. The fuzzy filter wants the typed characters in order, with others
between them, and takes no notice of case. -/
def admits (f : Filter) (typed candidate : String) : Bool :=
  match f with
  | .fuzzy => (Text.lowercase typed.toList).isSublist (Text.lowercase candidate.toList)
  | .beginning => typed.toList.isPrefixOf candidate.toList
  | .everything => true

/-- The candidates that pass, in order. -/
def keep (f : Filter) (typed : String) (candidates : List String) : List String :=
  candidates.filter (f.admits typed)

theorem keep_sublist (f : Filter) (typed : String) (candidates : List String) :
    (f.keep typed candidates).Sublist candidates :=
  List.filter_sublist

theorem ofLabel?_label (f : Filter) : ofLabel? f.label = some f := by
  cases f <;> rfl

end Filter

end Typeahead
