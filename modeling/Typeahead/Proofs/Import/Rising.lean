import Typeahead.Proofs.Import.Reading
import Typeahead.Proofs.Parser.Repetition

/-!
Preambles without repetitions. Only a search that is made before the preamble is complete can repeat a token in it; if
none does, the tokens of the text come one after another there.
-/

namespace Typeahead

open Automaton Recovery Typeahead.Tree

variable {place : Position} {token : Token} {tokens : List Token} {u m : Terminal} {qs : List State}
  {wanted : Option Terminal}

/-- Whether a search is made before the preamble is complete. -/
def Search.Early (s : Search) : Prop :=
  ∀ t ∈ s.parser.values, t.inner

instance Search.decidableEarly (s : Search) : Decidable s.Early :=
  inferInstanceAs (Decidable (∀ t ∈ s.parser.values, t.inner))

instance Search.decidableIdle (s : Search) : Decidable s.Idle :=
  inferInstanceAs (Decidable ((s.parser.search s.place s.wanted).read = s.parser.read))

/-- The tokens of the text among some tokens come one after another, and before a place. -/
structure Rising (place : Position) (tokens : List Token) : Prop where
  ordered : (written tokens).Pairwise fun a b => a.start.offset < b.start.offset
  before : ∀ x ∈ written tokens, x.start.offset < place.offset

namespace Rising

theorem after (h : Rising place tokens) (ht : token.After place) : Rising token.stop tokens :=
  ⟨h.ordered, fun x hx => Nat.lt_of_lt_of_le (h.before x hx) (Nat.le_trans ht.offset ht.offsets)⟩

theorem concat (h : Rising place tokens) (ht : token.After place) : Rising token.stop (tokens ++ [token]) := by
  cases hm : token.isMissing with
  | true =>
      have hwritten : written (tokens ++ [token]) = written tokens := by simp [written, hm]
      exact ⟨hwritten ▸ h.ordered, hwritten ▸ (h.after ht).before⟩
  | false =>
      have hwritten : written (tokens ++ [token]) = written tokens ++ [token] := by simp [written, hm]
      constructor
      · rw [hwritten, List.pairwise_append]
        refine ⟨h.ordered, List.pairwise_singleton _ _, fun x hx y hy => ?_⟩
        rw [List.mem_singleton.mp hy]
        exact Nat.lt_of_lt_of_le (h.before x hx) ht.offset
      · rw [hwritten]
        exact List.forall_mem_append.mpr ⟨(h.after ht).before, List.forall_mem_singleton.mpr (ht.extent hm)⟩

end Rising

namespace Parser

variable {p : Parser}

/-- A parser that has repeated no token in the preamble. -/
def Rises (p : Parser) (place : Position) : Prop :=
  ∃ ss, p.Outlined ss ∧ Rising place (front p.values)

namespace Rises

theorem initial : initial.Rises place :=
  ⟨[], .initial, .nil, List.forall_mem_nil _⟩

theorem after (h : p.Rises place) (ht : token.After place) : p.Rises token.stop := by
  obtain ⟨ss, hout, hr⟩ := h
  exact ⟨ss, hout, hr.after ht⟩

theorem settle (h : p.Rises place) (a : Lookahead) : (p.settle a).Rises place := by
  obtain ⟨ss, hout, hr⟩ := h
  obtain ⟨ss', hout', hfront, _⟩ := hout.settle a
  exact ⟨ss', hout', hfront ▸ hr⟩

theorem feed (h : p.Rises place) (hf : feed? p.states u = some qs) (hk : token.kind = .terminal u)
    (ht : token.After place) : (p.feed u token).2.Rises token.stop := by
  obtain ⟨ss, hout, hr⟩ := h
  obtain ⟨ss', hout', ⟨_, _, hfront⟩ | ⟨_, hfront⟩⟩ := hout.feed hf hk
  · exact ⟨ss', hout', hfront ▸ hr.concat ht⟩
  · exact ⟨ss', hout', hfront ▸ hr.after ht⟩

theorem search (h : p.Rises place) {place' : Position}
    (hidle : Search.Early ⟨p, place', wanted⟩ → Search.Idle ⟨p, place', wanted⟩) :
    (p.search place' wanted).Rises place := by
  obtain ⟨ss, hout, hr⟩ := h
  have hout' := hout.outlined_search place' wanted
  rcases opening_or_closed hout.1 with hopen | hclosed
  · -- Before the preamble is complete, its tokens are all tokens of the parser.
    have hsame : written (front (p.search place' wanted).values) = written (front p.values) := by
      rw [front_of_opening hout.2 hopen, front_of_opening hout'.2 hopen]
      refine hidle (forall_mem_of_forall₂ hout.2 fun s hs t ht => ?_)
      obtain ⟨hp, hf⟩ := ne_of_mem_openings ss hopen s hs
      exact ht.inner hp hf t List.mem_cons_self
    exact ⟨ss, hout', hsame ▸ hr.ordered, hsame ▸ hr.before⟩
  · exact ⟨ss, hout', hout.search_of_closed hclosed place' wanted ▸ hr⟩

theorem advance (h : p.Rises place) (ht : token.After place)
    (hidle : ∀ s ∈ p.searchesFor place token, s.Early → s.Idle) : (p.advance place token).2.Rises token.stop := by
  rcases p.advance_cases place token with ⟨_, ha⟩ | ⟨u, hk, ⟨qs, hf, ha⟩ | ⟨hf, _, ha⟩ | ⟨m, hf, hi, ha⟩⟩
  · rw [ha]
    exact h.after ht
  · rw [ha]
    exact h.feed hf hk ht
  all_goals
    rw [searchesFor_of_none hk hf, List.forall_mem_singleton] at hidle
    have hrefused : (p.refused place u).Rises place := (h.settle (.token u)).search hidle
    rw [ha]
  · exact hrefused.after ht
  · obtain ⟨qs₁, qs₂, hm, hu⟩ := feed?_refused place hi
    exact (hrefused.feed hm rfl (Token.after_missing m place)).feed hu hk ht

theorem run (h : p.Rises place) {us : List Token} (hus : ∀ u ∈ us, u.After place)
    (hpw : us.Pairwise fun a b => b.After a.stop) (hidle : ∀ s ∈ p.searches place us, s.Early → s.Idle) :
    (p.run place us).1.Rises (p.run place us).2.1 := by
  induction us generalizing p place with
  | nil => exact h
  | cons u us ih =>
      rw [List.forall_mem_cons] at hus
      rw [List.pairwise_cons] at hpw
      rw [Parser.searches, List.forall_mem_append] at hidle
      exact ih (h.advance hus.1 hidle.1) hpw.1 hpw.2 hidle.2

theorem finish (h : p.Rises place) (n : Nat) (hidle : ∀ s ∈ finishSearches place n p, s.Early → s.Idle) :
    ∃ tokens, Fronted tokens (Parser.finish place n p).tree ∧
      (written tokens).Pairwise fun a b => a.start.offset < b.start.offset := by
  induction n generalizing p with
  | zero =>
      obtain ⟨ss, hout, hr⟩ := h
      exact ⟨_, hout.abandon, hr.ordered⟩
  | succ n ih =>
      have hsettle := h.settle .finish
      by_cases ha : top (settled .finish p.states) = accepting
      · obtain ⟨ss, hout, hr⟩ := hsettle
        rw [finish_of_accepting n ha]
        exact ⟨_, hout.accept ha, hr.ordered⟩
      · simp only [finishSearches, ha, ↓reduceIte, List.forall_mem_cons] at hidle
        have hsearch := hsettle.search hidle.1
        cases hi : insertion? (settled .finish p.states) none with
        | none =>
            obtain ⟨ss, hout, hr⟩ := hsearch
            rw [finish_of_none n ha hi]
            exact ⟨_, hout.abandon, hr.ordered⟩
        | some m =>
            obtain ⟨qs, hm⟩ := feed?_unfinished place hi
            rw [finish_of_some n ha hi]
            rw [hi] at hidle
            exact ih (hsearch.feed hm rfl (Token.after_missing m place)) hidle.2

end Rises

end Parser

/-- The preamble of a text repeats no token if no search before its end leaves any behind. -/
theorem rising_parse {text : String} (h : ∀ s ∈ searches text, s.Early → s.Idle) :
    ∃ tokens, Fronted tokens (parse text).tree ∧
      (written tokens).Pairwise fun a b => a.start.offset < b.start.offset := by
  rw [searches, List.forall_mem_append] at h
  exact (Parser.Rises.initial.run (after_start_of_mem_significant text) (pairwise_after_significant text) h.1).finish
    Parser.completionLimit h.2

/-! ## Blocks without repetitions -/

/-- Then the tokens of a block come one after another, and before those of the next block. -/
theorem pairwise_written_blocks (h : (written tokens).Pairwise fun a b => a.start.offset < b.start.offset) :
    (∀ b ∈ blocks tokens, (written (b.keyword :: b.names)).Pairwise fun x y => x.start.offset < y.start.offset) ∧
    (blocks tokens).reverse.Pairwise fun f g => ∀ x ∈ written (f.keyword :: f.names),
      ∀ y ∈ written (g.keyword :: g.names), x.start.offset < y.start.offset := by
  have hblocks := h.sublist ((flatMap_blocks_sublist tokens).filter (!·.isMissing))
  rw [List.filter_flatMap, List.pairwise_flatMap] at hblocks
  exact ⟨fun b hb => hblocks.1 b (List.mem_reverse.mpr hb), hblocks.2⟩

namespace Block

variable {b : Block}

theorem start_mem_written (hc : b.clean) : b.start ∈ written (b.keyword :: b.names) :=
  List.mem_filter.mpr ⟨start_mem hc, by rw [isMissing_start hc]; rfl⟩

theorem names_sublist_written (hc : b.clean) : b.names.Sublist (written (b.keyword :: b.names)) := by
  have hnames : written b.names = b.names := by
    rw [written, List.filter_eq_self]
    exact fun n hn => by rw [(clean_iff.mp hc).2 n hn]; rfl
  have hsublist : (written b.names).Sublist (written (b.keyword :: b.names)) := (List.sublist_cons_self _ _).filter _
  rwa [hnames] at hsublist

end Block

/-- A clean block starts behind the start and the names of the clean blocks before it, and has no name twice. -/
theorem pairwise_blocks (h : (written tokens).Pairwise fun a b => a.start.offset < b.start.offset) :
    ((blocks tokens).reverse.filter Block.clean).Pairwise (fun f g =>
      ∀ x ∈ f.start :: f.names, x.start.offset < g.start.start.offset) ∧
    ∀ b ∈ blocks tokens, b.clean → b.names.Pairwise fun a b => a.start.offset < b.start.offset := by
  obtain ⟨hinside, hacross⟩ := pairwise_written_blocks h
  constructor
  · refine (hacross.filter Block.clean).imp_of_mem fun {f g} hf hg hbefore => ?_
    have hfc := (List.mem_filter.mp hf).2
    have hstart := Block.start_mem_written (List.mem_filter.mp hg).2
    refine List.forall_mem_cons.mpr ⟨hbefore _ (Block.start_mem_written hfc) _ hstart, fun n hn => ?_⟩
    exact hbefore n ((Block.names_sublist_written hfc).subset hn) _ hstart
  · intro b hb hc
    exact (hinside b hb).sublist (Block.names_sublist_written hc)

end Typeahead
