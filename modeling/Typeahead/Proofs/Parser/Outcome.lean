import Mathlib.Data.List.Nodup
import Typeahead.Proofs.Parser.States
import Typeahead.Proofs.Token.Order

/-!
What becomes of each token of a text, and how it can be read off the issues: as no two tokens are equal,
the issues name every token that was dropped, and every terminal that was inserted and its place.
-/

namespace Typeahead

open Automaton Recovery

/-- The issues raised by what became of some tokens. -/
def issuesOf (os : List (Token × Repair)) : List Issue :=
  os.filterMap fun o => Parser.issue? o.1 o.2

theorem issuesOf_append (os os' : List (Token × Repair)) :
    issuesOf (os ++ os') = issuesOf os ++ issuesOf os' :=
  List.filterMap_append

theorem unexpected_mem_issuesOf {os : List (Token × Repair)} (h : (os.map Prod.fst).Nodup)
    {o : Token × Repair} (ho : o ∈ os) : .unexpected o.1 ∈ issuesOf os ↔ o.2 = .dropped := by
  rw [issuesOf, List.mem_filterMap]
  constructor
  · rintro ⟨⟨token, repair⟩, ho', hi⟩
    cases repair with
    | taken => cases hi
    | inserted m => cases hi
    | dropped =>
        cases hi
        rw [List.inj_on_of_nodup_map h ho ho' rfl]
  · intro hd
    exact ⟨o, ho, by rw [hd]; rfl⟩

/-- The tokens that are not dropped. -/
def kept (os : List (Token × Repair)) : List Token :=
  (os.filter fun o => o.2 ≠ .dropped).map Prod.fst

theorem kept_append (os os' : List (Token × Repair)) : kept (os ++ os') = kept os ++ kept os' := by
  simp [kept]

theorem kept_eq_filter {os : List (Token × Repair)} (h : (os.map Prod.fst).Nodup) :
    kept os = (os.map Prod.fst).filter fun token => .unexpected token ∉ issuesOf os := by
  rw [kept, List.filter_map]
  refine congrArg _ (List.filter_congr fun o ho => ?_)
  simp [unexpected_mem_issuesOf h ho]

namespace Parser

/-- What becomes of each of some tokens. -/
def outcomes (p : Parser) (place : Position) : List Token → List (Token × Repair)
  | [] => []
  | token :: rest =>
    let (repair, p) := p.advance place token
    (token, repair) :: p.outcomes token.stop rest

theorem map_fst_outcomes (p : Parser) (place : Position) (us : List Token) :
    (p.outcomes place us).map Prod.fst = us := by
  induction us generalizing p place with
  | nil => rfl
  | cons u us ih => simp [outcomes, ih]

theorem outcomes_append (p : Parser) (place : Position) (us vs : List Token) :
    p.outcomes place (us ++ vs) =
      p.outcomes place us ++ (p.run place us).1.outcomes (p.run place us).2.1 vs := by
  induction us generalizing p place with
  | nil => rfl
  | cons u us ih => simp [outcomes, run, ih]

theorem issues_run (p : Parser) (place : Position) (us : List Token) :
    (p.run place us).2.2 = issuesOf (p.outcomes place us) := by
  induction us generalizing p place with
  | nil => rfl
  | cons u us ih =>
      simp only [run, ih, outcomes, issuesOf, List.filterMap_cons]
      cases issue? u (p.advance place u).1 <;> rfl

end Parser

/-! ## Whole texts -/

/-- What becomes of each token of a text. -/
def outcomesOf (text : String) : List (Token × Repair) :=
  Parser.initial.outcomes Position.start (significant (tokenize text))

theorem map_fst_outcomesOf (text : String) :
    (outcomesOf text).map Prod.fst = significant (tokenize text) :=
  Parser.map_fst_outcomes ..

theorem nodup_outcomesOf (text : String) : ((outcomesOf text).map Prod.fst).Nodup := by
  rw [map_fst_outcomesOf]
  exact nodup_significant text

/-- The terminals inserted at the end of a text. -/
def completionOf (text : String) : List Terminal :=
  completion Parser.completionLimit
    (Parser.initial.run Position.start (significant (tokenize text))).1.states

/-- The issues of a text: first those of its tokens, then what was missing at the end. -/
theorem issues_parse (text : String) : ∃ place, (parse text).issues =
    issuesOf (outcomesOf text) ++ (completionOf text).map (.missingAtEnd · place) := by
  rw [outcomesOf, ← Parser.issues_run, completionOf, parse]
  exact ⟨_, congrArg _ (Parser.issues_finish ..)⟩

theorem kept_outcomesOf (text : String) : kept (outcomesOf text) =
    (significant (tokenize text)).filter fun token => .unexpected token ∉ (parse text).issues := by
  obtain ⟨place, hi⟩ := issues_parse text
  rw [kept_eq_filter (nodup_outcomesOf text), map_fst_outcomesOf, hi]
  refine List.filter_congr fun token _ => ?_
  simp

end Typeahead
