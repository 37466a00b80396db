import Typeahead.Proofs.Parser.States

/-!
The terminals expected after a prefix of the tokens are those that the parser, having read the prefix,
takes as they come.
-/

namespace Typeahead

open Automaton

/-! ## One token -/

namespace Parser

theorem issue?_eq_none {token : Token} {repair : Repair} :
    issue? token repair = none ↔ repair = .taken := by
  cases repair <;> simp [issue?]

/-- A token raises no issue exactly if its terminal is accepted by the states. -/
theorem issue?_advance_eq_none (p : Parser) (place : Position) {token : Token} {t : Terminal}
    (h : token.kind = .terminal t) :
    issue? token (p.advance place token).1 = none ↔ accepts p.states t := by
  rw [issue?_eq_none, (advance_eq _ _ h).1, Recovery.advance, accepts]
  cases hf : feed? p.states t with
  | some qs => simp
  | none =>
      cases hi : Recovery.insertion? (settled (.token t) p.states) (some t) <;> simp [hi]

/-- A run without issues raised none for any of its tokens. -/
theorem issue?_of_run_eq_nil {p : Parser} {place : Position} {us vs : List Token} {token : Token}
    (h : (p.run place (us ++ token :: vs)).2.2 = []) :
    issue? token ((p.run place us).1.advance (p.run place us).2.1 token).1 = none := by
  simp only [run_append, run, List.append_eq_nil_iff, Option.toList_eq_nil_iff] at h
  exact h.2.1

theorem kind_of_issue?_eq_none {p : Parser} {place : Position} {token : Token}
    (h : issue? token (p.advance place token).1 = none) : ∃ t, token.kind = .terminal t := by
  cases hk : token.kind with
  | terminal t => exact ⟨t, rfl⟩
  | unlexable => simp [advance_of_unlexable hk, issue?] at h

end Parser

/-! ## Prefixes -/

theorem significant_append (us vs : List Token) :
    significant (us ++ vs) = significant us ++ significant vs :=
  List.filter_append us vs

/-- The parser that has read some tokens, and the end of the last of them. -/
def readAll (tokens : List Token) : Parser × Position :=
  let (p, place, _) := Parser.initial.run Position.start (significant tokens)
  (p, place)

theorem readAll_states (tokens : List Token) :
    (readAll tokens).1.states =
      Recovery.run [] ((significant tokens).filterMap Token.terminal?) :=
  Parser.run_states ..

theorem readAll_spells (tokens : List Token) : ∃ ss, Spells (readAll tokens).1.states ss := by
  rw [readAll_states]
  exact Recovery.spells_run .nil _

theorem expectedAfter_eq (tokens : List Token) :
    expectedAfter tokens = expected (readAll tokens).1.states := by
  rw [expectedAfter, readAll_states]

theorem expectedTerminals_of_le {tokens : List Token} {i : Int} (hi : -1 ≤ i) :
    expectedTerminals tokens i = expected (readAll (tokens.take (i + 1).toNat)).1.states := by
  have hi : ¬ i + 1 < 0 := by omega
  simp only [expectedTerminals, expectedAfter_eq, hi, ↓reduceIte]

/-- A token raises no issue exactly if it is of an expected terminal; so in a text without issues each
token is of one. -/
theorem mem_expectedTerminals_iff (text : String) :
    (∀ (i : Int) (t : Terminal) (token : Token), -1 ≤ i → token.kind = .terminal t →
      let (p, place) := readAll ((tokenize text).take (i + 1).toNat)
      (t ∈ expectedTerminals (tokenize text) i ↔
        Parser.issue? token (p.advance place token).1 = none)) ∧
    ((parse text).issues = [] → ∀ (i : Int) (token : Token), -1 ≤ i →
      (significant ((tokenize text).drop (i + 1).toNat)).head? = some token →
      ∃ t, token.kind = .terminal t ∧ t ∈ expectedTerminals (tokenize text) i) := by
  have agree (i : Int) (t : Terminal) (token : Token) (hi : -1 ≤ i) (hk : token.kind = .terminal t) :
      let (p, place) := readAll ((tokenize text).take (i + 1).toNat)
      (t ∈ expectedTerminals (tokenize text) i ↔
        Parser.issue? token (p.advance place token).1 = none) := by
    simp only [expectedTerminals_of_le hi, mem_expected, Parser.issue?_advance_eq_none _ _ hk]
  refine ⟨agree, fun hn i token hi hh => ?_⟩
  obtain ⟨rest, hrest⟩ := List.head?_eq_some_iff.mp hh
  have hsplit : significant (tokenize text) =
      significant ((tokenize text).take (i + 1).toNat) ++ token :: rest := by
    rw [← hrest, ← significant_append, List.take_append_drop]
  have hrun := (List.append_eq_nil_iff.mp hn).1
  rw [hsplit] at hrun
  have hnone := Parser.issue?_of_run_eq_nil hrun
  obtain ⟨t, hk⟩ := Parser.kind_of_issue?_eq_none hnone
  exact ⟨t, hk, (agree i t token hi hk).mpr hnone⟩

/-- A name, and no parenthesis, is expected after a keyword that introduces one. -/
theorem name_expected_after_val :
    let token : Token := ⟨.terminal .name, "x", ⟨4, 1, 5⟩, ⟨5, 1, 6⟩⟩
    let stray : Token := ⟨.terminal .rpar, ")", ⟨4, 1, 5⟩, ⟨5, 1, 6⟩⟩
    let (p, place) := readAll ((tokenize "val x").take 1)
    (∃ t, token.kind = .terminal t ∧ t ∈ expectedTerminals (tokenize "val x") 0) ∧
    (.rpar ∈ expectedTerminals (tokenize "val x") 0 ↔
      Parser.issue? stray (p.advance place stray).1 = none) := by
  obtain ⟨agree, next⟩ := mem_expectedTerminals_iff "val x"
  exact ⟨next (by decide +kernel) 0 _ (by decide) (by decide +kernel), agree 0 .rpar _ (by decide) rfl⟩

end Typeahead
