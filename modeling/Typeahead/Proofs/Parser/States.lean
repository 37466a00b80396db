import Typeahead.Parser
import Typeahead.Proofs.Automaton.Acceptance

/-!
The parser seen through its states. Trees never decide anything: what becomes of a token, and the states
it leaves, are those of recovery on states alone.
-/

namespace Typeahead

open Automaton

/-! ## Recovery on states -/

namespace Recovery

variable {qs qs' : List State} {ss : List Symbol} {t m : Terminal} {wanted : Option Terminal}

theorem fits_some : fits qs (some t) m ↔ ∃ qs', feed? qs m = some qs' ∧ accepts qs' t := by
  cases h : feed? qs m <;> simp [fits, h]

theorem fits_none : fits qs none m ↔ accepts qs m := by
  cases h : feed? qs m <;> simp [fits, accepts, h]

theorem accepts_of_fits (h : fits qs wanted m) : accepts qs m := by
  cases wanted with
  | none => exact fits_none.mp h
  | some t =>
      obtain ⟨qs', hf, _⟩ := fits_some.mp h
      simp [accepts, hf]

theorem mem_candidates {q : State} : t ∈ candidates q ↔ offers q (.token t) := by
  by_cases ht : t ∈ preferred <;> simp [candidates, ht, Terminal.mem_all]

theorem exists_insertion? (h : Spells qs ss) (ht : accepts qs t) : ∃ m, insertion? qs none = some m := by
  refine Option.isSome_iff_exists.mp (List.find?_isSome.mpr ⟨t, ?_, fits_none.mpr ht⟩)
  exact mem_candidates.mpr (h.offers_of_accepts ht)

/-- What is inserted for a wanted terminal is taken, and so is the wanted terminal then. -/
theorem feed?_of_insertion? (h : insertion? qs (some t) = some m) :
    ∃ qs₁ qs₂, feed? qs m = some qs₁ ∧ feed? qs₁ t = some qs₂ := by
  obtain ⟨qs₁, hm, ht⟩ := fits_some.mp (fits_of_insertion? h)
  obtain ⟨qs₂, ht⟩ := Option.isSome_iff_exists.mp ht
  exact ⟨qs₁, qs₂, hm, ht⟩

theorem feed?_of_insertion?_none (h : insertion? qs none = some m) : ∃ qs', feed? qs m = some qs' :=
  Option.isSome_iff_exists.mp (fits_none.mp (fits_of_insertion? h))

theorem spells_advance (h : Spells qs ss) (t : Terminal) : ∃ ss', Spells (advance qs t).2 ss' := by
  cases hf : feed? qs t with
  | some qs₁ => simpa [advance, hf] using h.feed? hf
  | none =>
      obtain ⟨_, h'⟩ := h.settled (.token t)
      cases hi : insertion? (settled (.token t) qs) (some t) with
      | none => simpa [advance, hf, hi] using ⟨_, h'⟩
      | some m =>
          obtain ⟨qs₁, qs₂, hm, ht⟩ := feed?_of_insertion? hi
          obtain ⟨_, h₁⟩ := h'.feed? hm
          simpa [advance, hf, hi, hm, ht] using h₁.feed? ht

theorem spells_run (h : Spells qs ss) (ts : List Terminal) : ∃ ss', Spells (run qs ts) ss' := by
  induction ts generalizing qs ss with
  | nil => exact ⟨ss, h⟩
  | cons t ts ih =>
      obtain ⟨_, h'⟩ := spells_advance h t
      exact ih h'

/-- The terminals inserted to finish a text. -/
def completion : Nat → List State → List Terminal
  | 0, _ => []
  | n + 1, qs =>
    let qs := settled .finish qs
    if top qs = accepting then
      []
    else
      match insertion? qs none with
      | none => []
      | some m => m :: completion n ((feed? qs m).getD qs)

theorem completion_of_some {n : Nat} (h : top (settled .finish qs) ≠ accepting)
    (hi : insertion? (settled .finish qs) none = some m) :
    ∃ qs', feed? (settled .finish qs) m = some qs' ∧ completion (n + 1) qs = m :: completion n qs' := by
  obtain ⟨qs', hm⟩ := feed?_of_insertion?_none hi
  exact ⟨qs', hm, by simp [completion, h, hi, hm]⟩

end Recovery

/-! ## The parser's steps -/

namespace Parser

open Recovery

variable {p : Parser} {place : Position} {token : Token} {t m : Terminal} {qs : List State}
  {wanted : Option Terminal}

@[simp] theorem settle_states (p : Parser) (a : Lookahead) :
    (p.settle a).states = settled a p.states := rfl

theorem feed_of_some (h : feed? p.states t = some qs) :
    p.feed t token = (true, ⟨qs, .leaf token :: (p.settle (.token t)).values⟩) := by
  obtain ⟨q, hq, rfl⟩ := feed?_eq_some.mp h
  simp [feed, hq]

theorem feed_of_none (h : feed? p.states t = none) :
    p.feed t token = (false, p.settle (.token t)) := by
  simp only [feed?, Option.map_eq_none_iff] at h
  simp [feed, h]

@[simp] theorem feed_states (p : Parser) (t : Terminal) (token : Token) :
    (p.feed t token).2.states = (feed? p.states t).getD (settled (.token t) p.states) := by
  cases h : feed? p.states t with
  | none => rw [feed_of_none h]; rfl
  | some qs => rw [feed_of_some h]; rfl

@[simp] theorem attempt_states (p : Parser) (place : Position) (ts : List Terminal) :
    (p.attempt place ts).states = p.states := rfl

@[simp] theorem search_states (p : Parser) (place : Position) (wanted : Option Terminal) :
    (p.search place wanted).states = p.states := by
  unfold search
  induction tried p.states wanted generalizing p with
  | nil => rfl
  | cons t ts ih => rw [List.foldl_cons, ih, attempt_states]

theorem insert_of_none (h : insertion? p.states wanted = none) :
    p.insert place wanted = (none, p.search place wanted) := by
  simp [insert, h]

theorem insert_of_some (h : insertion? p.states wanted = some m) :
    p.insert place wanted =
      (some m, ((p.search place wanted).feed m (Token.missing m place)).2) := by
  simp [insert, h]

/-- The parser after the search for a terminal to insert before a refused one. -/
def refused (p : Parser) (place : Position) (t : Terminal) : Parser :=
  (p.settle (.token t)).search place (some t)

@[simp] theorem refused_states (p : Parser) (place : Position) (t : Terminal) :
    (p.refused place t).states = settled (.token t) p.states := by
  simp [refused]

/-- What is inserted before a refused terminal is taken after the search for it, and so is the terminal then. -/
theorem feed?_refused (place : Position) (h : insertion? (settled (.token t) p.states) (some t) = some m) :
    ∃ qs₁ qs₂, feed? (p.refused place t).states m = some qs₁ ∧
      feed? ((p.refused place t).feed m (Token.missing m place)).2.states t = some qs₂ := by
  obtain ⟨qs₁, qs₂, hm, ht⟩ := feed?_of_insertion? h
  rw [← p.refused_states place t] at hm
  refine ⟨qs₁, qs₂, hm, ?_⟩
  rw [feed_states, hm]
  exact ht

/-- All that can become of a token. -/
theorem advance_cases (p : Parser) (place : Position) (token : Token) :
    (token.kind = .unlexable ∧ p.advance place token = (.dropped, p)) ∨
    ∃ t, token.kind = .terminal t ∧
      ((∃ qs, feed? p.states t = some qs ∧
          p.advance place token = (.taken, (p.feed t token).2)) ∨
        (feed? p.states t = none ∧
          insertion? (settled (.token t) p.states) (some t) = none ∧
          p.advance place token = (.dropped, p.refused place t)) ∨
        ∃ m, feed? p.states t = none ∧
          insertion? (settled (.token t) p.states) (some t) = some m ∧
          p.advance place token =
            (.inserted m, (((p.refused place t).feed m (Token.missing m place)).2.feed t token).2)) := by
  cases hk : token.kind with
  | unlexable => exact .inl ⟨rfl, by simp [advance, hk]⟩
  | terminal t =>
      refine .inr ⟨t, rfl, ?_⟩
      cases hf : feed? p.states t with
      | some qs => exact .inl ⟨qs, rfl, by simp [advance, hk, feed_of_some hf]⟩
      | none =>
          refine .inr ?_
          cases hi : insertion? (settled (.token t) p.states) (some t) with
          | none =>
              refine .inl ⟨rfl, rfl, ?_⟩
              simp [advance, hk, feed_of_none hf, insert_of_none, hi, refused]
          | some m =>
              refine .inr ⟨m, rfl, rfl, ?_⟩
              simp [advance, hk, feed_of_none hf, insert_of_some, hi, refused]

theorem advance_of_unlexable (h : token.kind = .unlexable) :
    p.advance place token = (.dropped, p) := by
  simp [advance, h]

/-- The parser mends a token as recovery on its states does. -/
theorem advance_eq (p : Parser) (place : Position) (h : token.kind = .terminal t) :
    (p.advance place token).1 = (Recovery.advance p.states t).1 ∧
    (p.advance place token).2.states = (Recovery.advance p.states t).2 := by
  rcases p.advance_cases place token with ⟨hk, _⟩ | ⟨t', hk, hc⟩
  · rw [h] at hk; cases hk
  · rw [h] at hk
    cases hk
    rcases hc with ⟨qs, hf, ha⟩ | ⟨hf, hi, ha⟩ | ⟨m, hf, hi, ha⟩
    · simp [ha, Recovery.advance, hf]
    · simp [ha, Recovery.advance, hf, hi]
    · obtain ⟨qs₁, qs₂, hm, ht⟩ := feed?_of_insertion? hi
      simp [ha, Recovery.advance, hf, hi, hm, ht]

theorem dropped_cases (h : (p.advance place token).1 = .dropped) :
    (token.kind = .unlexable ∧ (p.advance place token).2 = p) ∨
    ∃ t, token.kind = .terminal t ∧ feed? p.states t = none ∧
      (p.advance place token).2.states = settled (.token t) p.states := by
  rcases p.advance_cases place token with ⟨hk, ha⟩ | ⟨t, hk, ⟨_, _, ha⟩ | ⟨hf, _, ha⟩ | ⟨_, _, _, ha⟩⟩
  · exact .inl ⟨hk, by rw [ha]⟩
  · rw [ha] at h; cases h
  · exact .inr ⟨t, hk, hf, by rw [ha, refused_states]⟩
  · rw [ha] at h; cases h

/-! ## Runs -/

theorem run_append (p : Parser) (place : Position) (us vs : List Token) :
    p.run place (us ++ vs) =
      let (p, place, issues) := p.run place us
      let (p, place, more) := p.run place vs
      (p, place, issues ++ more) := by
  induction us generalizing p place with
  | nil => rfl
  | cons u us ih => simp [run, ih]

theorem run_states (p : Parser) (place : Position) (tokens : List Token) :
    (p.run place tokens).1.states =
      Recovery.run p.states (tokens.filterMap Token.terminal?) := by
  induction tokens generalizing p place with
  | nil => rfl
  | cons token tokens ih =>
      cases hk : token.kind with
      | unlexable => simp [run, advance_of_unlexable hk, ih, Token.terminal?, hk]
      | terminal t =>
          simp [run, ih, (advance_eq _ _ hk).2, Token.terminal?, hk, Recovery.run]

/-! ## The end of a text -/

/-- The parser after the search for a terminal to insert at the end. -/
def unfinished (p : Parser) (place : Position) : Parser :=
  (p.settle .finish).search place none

@[simp] theorem unfinished_states (p : Parser) (place : Position) :
    (p.unfinished place).states = settled .finish p.states := by
  simp [unfinished]

theorem feed?_unfinished (place : Position) (h : insertion? (settled .finish p.states) none = some m) :
    ∃ qs, feed? (p.unfinished place).states m = some qs := by
  rw [unfinished_states]
  exact feed?_of_insertion?_none h

theorem finish_of_accepting (n : Nat) (h : top (settled .finish p.states) = accepting) :
    finish place (n + 1) p = (p.settle .finish).accept := by
  simp [finish, h]

theorem finish_of_none (n : Nat) (h : top (settled .finish p.states) ≠ accepting)
    (hi : insertion? (settled .finish p.states) none = none) :
    finish place (n + 1) p = (p.unfinished place).abandon := by
  simp [finish, h, insert_of_none, hi, unfinished]

theorem finish_of_some (n : Nat) (h : top (settled .finish p.states) ≠ accepting)
    (hi : insertion? (settled .finish p.states) none = some m) :
    finish place (n + 1) p =
      let rest := finish place n ((p.unfinished place).feed m (Token.missing m place)).2
      { rest with issues := .missingAtEnd m place :: rest.issues } := by
  simp [finish, h, insert_of_some, hi, unfinished]

theorem issues_finish (place : Position) (n : Nat) (p : Parser) :
    (finish place n p).issues = (completion n p.states).map (.missingAtEnd · place) := by
  induction n generalizing p with
  | zero => rfl
  | succ n ih =>
      by_cases ha : top (settled .finish p.states) = accepting
      · rw [finish_of_accepting n ha]
        simp [completion, ha, accept]
      · cases hi : insertion? (settled .finish p.states) none with
        | none =>
            rw [finish_of_none n ha hi]
            simp [completion, ha, hi, abandon]
        | some m =>
            obtain ⟨qs, hm, hc⟩ := completion_of_some (n := n) ha hi
            rw [finish_of_some n ha hi, hc]
            simp [hm, ih]

end Parser

end Typeahead
