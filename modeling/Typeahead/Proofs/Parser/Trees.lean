import Typeahead.Proofs.Parser.States
import Typeahead.Proofs.Tree.Leaves

/-!
The parser's trees. They stand for the symbols that led to its states; reductions keep their leaves, and a
token that is taken adds itself.
-/

namespace Typeahead.Parser

open Automaton Typeahead.Tree

variable {p : Parser} {t : Terminal} {qs : List State}

/-- The trees on a parser's stack stand for the symbols that led to its states. -/
def Sound (p : Parser) : Prop :=
  ∃ ss, Spells p.states ss ∧ List.Forall₂ Fills ss p.values

/-- The tokens in a parser's trees. -/
def leaves (p : Parser) : List Token :=
  leavesAll p.values

theorem sound_initial : initial.Sound :=
  ⟨[], .nil, .nil⟩

theorem Sound.settle (h : p.Sound) (a : Lookahead) :
    (p.settle a).Sound ∧ (p.settle a).leaves = p.leaves := by
  obtain ⟨ss, hs, hf⟩ := h
  have hsettles := hs.settles a
  refine hsettles.foldl (M := fun qs vs => (∃ ss, Spells qs ss ∧ List.Forall₂ Fills ss vs) ∧
    leavesAll vs = p.leaves) ?_ ⟨⟨ss, hs, hf⟩, rfl⟩
  rintro qs qs' r vs hr ⟨⟨ss, hs, hf⟩, hl⟩
  obtain ⟨rest, rfl, hs'⟩ := hs.reduce? hr
  exact ⟨⟨_, hs', fills_reduce hf⟩, (leavesAll_reduce hf).trans hl⟩

/-- A token that is taken is added at the end. -/
theorem Sound.feed (h : p.Sound) (hf : feed? p.states t = some qs) (token : Token) :
    (p.feed t token).2.Sound ∧ (p.feed t token).2.leaves = p.leaves ++ [token] := by
  obtain ⟨⟨ss, hs, hv⟩, hl⟩ := h.settle (.token t)
  rw [feed_of_some hf]
  obtain ⟨q, hq, rfl⟩ := feed?_eq_some.mp hf
  refine ⟨⟨_, hs.shift? hq, .cons ?_ hv⟩, ?_⟩
  · intro h
    cases h
  · rw [leaves, leavesAll_cons, leaves_leaf]
    exact congrArg (· ++ [token]) hl

theorem Sound.leaves_accept (h : p.Sound) (ha : top p.states = accepting) :
    p.accept.tree.leaves = p.leaves := by
  obtain ⟨states, values⟩ := p
  obtain ⟨ss, hs, hf⟩ := h
  obtain ⟨_, rfl⟩ := hs.eq_of_accepting ha
  cases hf with
  | cons _ hf =>
      cases hf
      simp [accept, leaves, leavesAll]

theorem leaves_abandon (p : Parser) : p.abandon.tree.leaves = p.leaves :=
  leaves_node ..

end Typeahead.Parser
