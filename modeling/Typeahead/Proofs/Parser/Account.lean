import Mathlib.Logic.Basic
import Typeahead.Proofs.Parser.Repetition

/-!
Every token is accounted for: it is in the tree, or an issue says at its line and column that it was
unexpected. Issues about tokens come first, at most one for each, in the order of the text.
-/

namespace Typeahead

open Automaton Recovery Typeahead.Tree

namespace Issue

/-- The token that an issue is about, unless it is about the end of the text. -/
def subject? : Issue → Option Token
  | .unexpected token => some token
  | .missingBefore _ token => some token
  | .missingAtEnd _ _ => none

/-- Whether an issue is reported as an unexpected token. -/
def ReportsUnexpected (i : Issue) : Prop :=
  "Unexpected ".toList <+: i.message.toList

theorem reportsUnexpected_iff {i : Issue} : i.ReportsUnexpected ↔ ∃ token, i = .unexpected token := by
  cases i with
  | unexpected token => simp [ReportsUnexpected, message, String.toList_append]
  | missingBefore m token => simp [ReportsUnexpected, message, String.toList_append]
  | missingAtEnd m place => simp [ReportsUnexpected, message, String.toList_append]

end Issue

/-! ## Issues about tokens -/

/-- A token that is taken as it comes raises no issue; any other raises one about itself. -/
theorem issue?_cases (token : Token) (repair : Repair) :
    Parser.issue? token repair = none ∨
    ∃ i, Parser.issue? token repair = some i ∧ i.subject? = some token := by
  cases repair with
  | taken => exact .inl rfl
  | inserted m => exact .inr ⟨_, rfl, rfl⟩
  | dropped => exact .inr ⟨_, rfl, rfl⟩

theorem subject?_of_mem_issuesOf {os : List (Token × Repair)} {i : Issue} (h : i ∈ issuesOf os) :
    ∃ token, i.subject? = some token := by
  obtain ⟨o, _, hi⟩ := List.mem_filterMap.mp h
  rcases issue?_cases o.1 o.2 with hnone | ⟨i', hsome, hsubject⟩
  · rw [hnone] at hi
    cases hi
  · rw [hsome] at hi
    cases hi
    exact ⟨o.1, hsubject⟩

/-- The issues about some tokens come in their order, at most one for each. -/
theorem subjects_issuesOf (os : List (Token × Repair)) :
    ((issuesOf os).filterMap Issue.subject?).Sublist (os.map Prod.fst) := by
  induction os with
  | nil => exact .slnil
  | cons o os ih =>
      rcases issue?_cases o.1 o.2 with hnone | ⟨i, hsome, hsubject⟩
      · have hos : issuesOf (o :: os) = issuesOf os := List.filterMap_cons_none hnone
        rw [hos]
        exact ih.cons _
      · have hos : issuesOf (o :: os) = i :: issuesOf os := List.filterMap_cons_some hsome
        rw [hos, List.filterMap_cons_some hsubject]
        exact ih.cons_cons _

/-! ## Whole texts -/

/-- The tokens in the tree of a text are those that are not reported as unexpected. -/
theorem mem_leaves_parse_iff {text : String} {token : Token} (h : token ∈ significant (tokenize text)) :
    token ∈ (parse text).tree.leaves ↔ .unexpected token ∉ (parse text).issues := by
  have hwritten : token.isMissing = false :=
    isMissing_of_mem_tokenize (List.mem_of_mem_filter h)
  have hmem : token ∈ written (parse text).tree.leaves ↔ token ∈ (parse text).tree.leaves := by
    simp [written, hwritten]
  rw [← hmem, mem_written_leaves_parse, kept_outcomesOf]
  simp [h]

theorem mem_tokenize_of_unexpected {text : String} {token : Token}
    (h : .unexpected token ∈ (parse text).issues) : token ∈ tokenize text := by
  obtain ⟨place, hi⟩ := issues_parse text
  rw [hi, List.mem_append] at h
  rcases h with h | h
  · have hmem := (subjects_issuesOf (outcomesOf text)).subset (List.mem_filterMap.mpr ⟨_, h, rfl⟩)
    rw [map_fst_outcomesOf] at hmem
    exact List.mem_of_mem_filter hmem
  · simp at h

/-- Every token that is not hidden is either in the tree, or reported as unexpected at its line and column, and
never both. The issues about tokens come before those about the end of the text; each is about another token,
in the order of the text. -/
theorem each_token_accounted (text : String) :
    (∀ token ∈ significant (tokenize text),
      Xor (token ∈ (parse text).tree.leaves)
        (∃ i ∈ (parse text).issues, i.ReportsUnexpected ∧
          i.place.line = token.start.line ∧ i.place.column = token.start.column)) ∧
    ∃ raised missing, (parse text).issues = raised ++ missing ∧
      (∀ i ∈ raised, ∃ token, i.subject? = some token) ∧
      (raised.filterMap Issue.subject?).Sublist (significant (tokenize text)) ∧
      (raised.filterMap Issue.subject?).Nodup ∧
      ∀ i ∈ missing, ∃ m place, i = .missingAtEnd m place := by
  constructor
  · intro token htoken
    have hreported : (∃ i ∈ (parse text).issues, i.ReportsUnexpected ∧
        i.place.line = token.start.line ∧ i.place.column = token.start.column) ↔
        .unexpected token ∈ (parse text).issues := by
      constructor
      · rintro ⟨i, hi, hr, hl, hc⟩
        obtain ⟨other, rfl⟩ := Issue.reportsUnexpected_iff.mp hr
        have hother := mem_tokenize_of_unexpected hi
        rwa [eq_of_line_column hother (List.mem_of_mem_filter htoken) hl hc] at hi
      · intro hi
        exact ⟨_, hi, Issue.reportsUnexpected_iff.mpr ⟨token, rfl⟩, rfl, rfl⟩
    rw [hreported, mem_leaves_parse_iff htoken, xor_def]
    by_cases hi : .unexpected token ∈ (parse text).issues
    · exact .inr ⟨hi, not_not_intro hi⟩
    · exact .inl ⟨hi, hi⟩
  · obtain ⟨place, hi⟩ := issues_parse text
    have hsubjects := subjects_issuesOf (outcomesOf text)
    rw [map_fst_outcomesOf] at hsubjects
    refine ⟨_, _, hi, fun i h => subject?_of_mem_issuesOf h, hsubjects,
      hsubjects.nodup (nodup_significant text), fun i h => ?_⟩
    obtain ⟨m, _, rfl⟩ := List.mem_map.mp h
    exact ⟨m, place, rfl⟩

/-- The last name is in the tree, if more than once, and the parenthesis after it is reported. -/
theorem each_token_accounted_stray :
    let name : Token := ⟨.terminal .name, "b", ⟨10, 1, 11⟩, ⟨11, 1, 12⟩⟩
    let stray : Token := ⟨.terminal .rpar, ")", ⟨11, 1, 12⟩, ⟨12, 1, 13⟩⟩
    name ∈ significant (tokenize "val a val b)") ∧ stray ∈ significant (tokenize "val a val b)") ∧
    name ∈ (parse "val a val b)").tree.leaves ∧
    ∃ i ∈ (parse "val a val b)").issues, i.ReportsUnexpected ∧ i.place.line = 1 ∧ i.place.column = 12 := by
  obtain ⟨accounted, _⟩ := each_token_accounted "val a val b)"
  have hname : (⟨.terminal .name, "b", ⟨10, 1, 11⟩, ⟨11, 1, 12⟩⟩ : Token) ∈
      significant (tokenize "val a val b)") := by decide +kernel
  have hstray : (⟨.terminal .rpar, ")", ⟨11, 1, 12⟩, ⟨12, 1, 13⟩⟩ : Token) ∈
      significant (tokenize "val a val b)") := by decide +kernel
  have hleaves : (⟨.terminal .name, "b", ⟨10, 1, 11⟩, ⟨11, 1, 12⟩⟩ : Token) ∈
      (parse "val a val b)").tree.leaves ∧ (⟨.terminal .rpar, ")", ⟨11, 1, 12⟩, ⟨12, 1, 13⟩⟩ : Token) ∉
      (parse "val a val b)").tree.leaves := by decide +kernel
  rcases accounted _ hstray with ⟨hin, _⟩ | ⟨hreport, _⟩
  · exact absurd hin hleaves.2
  · exact ⟨hname, hstray, hleaves.1, hreport⟩

end Typeahead
