import Typeahead.Proofs.Parser.Derivation
import Typeahead.Proofs.Tree.Derived

/-!
Texts without issues have trees that derive them. While nothing is mended, the trees on the parser's stack derive the
tokens read so far from the symbols that led to its states.
-/

namespace Typeahead

open Automaton Recovery

/-- Every production that the automaton completes is an alternative of its rule. -/
theorem alternative_of_complete : ∀ r ∈ rows, ∀ p ∈ r.complete, p.body ∈ p.rule.alternatives := by
  decide +kernel

theorem Forest.reduce {p : Production} {ss : List Symbol} {w : List Token} {stack : List Tree}
    (hp : p.body ∈ p.rule.alternatives) (h : Forest Derived (p.body.reverse ++ ss).reverse w stack.reverse) :
    Forest Derived (.r p.rule :: ss).reverse w (Tree.reduce stack p).reverse := by
  rw [List.reverse_append, List.reverse_reverse] at h
  obtain ⟨u, v, below, parts, rfl, hstack, hbelow, hparts⟩ := h.of_append
  have hlength : p.body.length = parts.reverse.length := by rw [List.length_reverse, hparts.length_eq]
  obtain rfl : stack = parts.reverse ++ below.reverse := by
    rw [← List.reverse_append, ← hstack, List.reverse_reverse]
  rw [Tree.reduce, List.take_left' hlength.symm, List.drop_left' hlength.symm, List.reverse_reverse,
    List.reverse_cons, List.reverse_cons, List.reverse_reverse]
  exact hbelow.append (.single (.node hp hparts))

namespace Parser

variable {p : Parser} {t : Terminal} {token : Token} {w : List Token} {qs : List State}

/-- The trees on a parser's stack derive some tokens from the symbols that led to its states. -/
def Derives (p : Parser) (w : List Token) : Prop :=
  ∃ ss, Spells p.states ss ∧ Forest Derived ss.reverse w p.values.reverse

namespace Derives

theorem initial : initial.Derives [] :=
  ⟨[], .nil, .nil⟩

theorem settle (h : p.Derives w) (a : Lookahead) : (p.settle a).Derives w := by
  obtain ⟨ss, hs, hw⟩ := h
  refine (hs.settles a).foldl (M := fun qs vs => Derives ⟨qs, vs⟩ w) ?_ ⟨ss, hs, hw⟩
  rintro qs qs' r vs hr ⟨ss, hs, hw⟩
  obtain ⟨rest, rfl, hs'⟩ := hs.reduce? hr
  exact ⟨_, hs', Forest.reduce (alternative_of_complete _ (row_mem hs.top_lt) r (complete_of_reduce? hr)) hw⟩

theorem feed (h : p.Derives w) (hf : feed? p.states t = some qs) (hk : token.kind = .terminal t)
    (hm : token.isMissing = false) : (p.feed t token).2.Derives (w ++ [token]) := by
  obtain ⟨ss, hs, hw⟩ := h.settle (.token t)
  rw [feed_of_some hf]
  obtain ⟨q, hq, rfl⟩ := feed?_eq_some.mp hf
  refine ⟨_, hs.shift? hq, ?_⟩
  rw [List.reverse_cons, List.reverse_cons]
  exact hw.append (.single (.leaf hk hm))

theorem run (h : p.Derives w) (place : Position) {us : List Token} (hm : ∀ u ∈ us, u.isMissing = false)
    (hi : (p.run place us).2.2 = []) : (p.run place us).1.Derives (w ++ us) := by
  induction us generalizing p place w with
  | nil => simpa [Parser.run] using h
  | cons u us ih =>
      simp only [Parser.run, List.append_eq_nil_iff, Option.toList_eq_nil_iff, issue?_eq_none] at hi
      rcases p.advance_cases place u with ⟨_, ha⟩ | ⟨t, hk, ⟨qs, hf, ha⟩ | ⟨_, _, ha⟩ | ⟨m, _, _, ha⟩⟩
      · rw [ha] at hi
        cases hi.1
      · have hu := h.feed hf hk (hm u List.mem_cons_self)
        rw [ha] at hi
        have hus := ih hu u.stop (fun u hu => hm u (List.mem_cons_of_mem _ hu)) hi.2
        simpa only [Parser.run, ha, List.append_assoc, List.singleton_append] using hus
      · rw [ha] at hi
        cases hi.1
      · rw [ha] at hi
        cases hi.1

theorem accept (h : p.Derives w) (ha : top p.states = accepting) : Derived (.r .file) w p.accept.tree := by
  obtain ⟨states, values⟩ := p
  obtain ⟨ss, hs, hw⟩ := h
  obtain ⟨_, rfl⟩ := hs.eq_of_accepting ha
  obtain ⟨t, ht, hfile⟩ := hw.of_single
  obtain rfl : values = [t] := by simpa using congrArg List.reverse ht
  exact hfile

end Derives

end Parser

/-- The tree of a text without issues derives its tokens as a file. -/
theorem derived_parse {text : String} (h : (parse text).issues = []) :
    Derived (.r .file) (significant (tokenize text)) (parse text).tree := by
  obtain ⟨hrun, hfinish⟩ := List.append_eq_nil_iff.mp h
  rw [Parser.issues_finish, List.map_eq_nil_iff] at hfinish
  have hm : ∀ token ∈ significant (tokenize text), token.isMissing = false :=
    fun token ht => isMissing_of_mem_tokenize (List.mem_of_mem_filter ht)
  have hend := Parser.Derives.initial.run Position.start hm hrun
  have ⟨_, hs, _⟩ := hend
  have htop := accepting_of_completion (n := 31) hs hfinish
  have htree : (parse text).tree =
      ((Parser.initial.run Position.start (significant (tokenize text))).1.settle .finish).accept.tree :=
    congrArg Parser.Ending.tree (Parser.finish_of_accepting 31 htop)
  rw [htree]
  exact (hend.settle .finish).accept htop

end Typeahead
