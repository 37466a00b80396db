import Typeahead.Proofs.Token.Lexeme
import Typeahead.Proofs.Token.Place

/-!
A text that is cut between two tokens. Either part has the tokens that it had in the whole. A run of characters
that begin nothing is as long as can be, so no two of them are side by side.
-/

namespace Typeahead

/-- A place as it is counted from another one before it. -/
def Position.since (base p : Position) : Position :=
  ⟨p.offset - base.offset, p.line - base.line + 1,
    if p.line = base.line then p.column - base.column + 1 else p.column⟩

theorem Position.since_after (base : Position) (cs : List Char) :
    base.since (base.after cs) = start.after cs := by
  rw [after_eq, after_eq, since]
  by_cases hmem : '\n' ∈ cs
  · have hpos := List.count_pos_iff.mpr hmem
    have hline : base.line + cs.count '\n' ≠ base.line := by omega
    simp only [start, hmem, hline, ↓reduceIte, mk.injEq, and_true]
    omega
  · have hzero := List.count_eq_zero.mpr hmem
    simp only [start, hmem, hzero, ↓reduceIte, mk.injEq, Nat.add_zero]
    omega

namespace Lexer

variable {cs w : List Char} {ls ls' : List (Token.Kind × List Char)}

/-! ## Lexemes behind a cut -/

theorem lexemes_rest (h : lexemes cs = ls ++ ls') : lexemes (ls'.flatMap Prod.snd) = ls' := by
  induction ls generalizing cs with
  | nil =>
      have hcs := flatMap_lexemes cs
      rw [h, List.nil_append] at hcs
      rw [hcs, h, List.nil_append]
  | cons l ls ih =>
      cases cs with
      | nil =>
          rw [lexemes] at h
          cases h
      | cons c cs =>
          rw [lexemes_cons, List.cons_append, List.cons.injEq] at h
          exact ih h.2

theorem lexemes_of_append (h : lexemes cs = ls ++ ls') :
    lexemes (cs.take (ls.flatMap Prod.snd).length) = ls ∧
    lexemes (cs.drop (ls.flatMap Prod.snd).length) = ls' := by
  have hcs : ls.flatMap Prod.snd ++ ls'.flatMap Prod.snd = cs := by
    rw [← List.flatMap_append, ← h, flatMap_lexemes]
  subst hcs
  rw [List.take_left, List.drop_left]
  exact ⟨lexemes_cut h rfl, lexemes_rest h⟩

/-- The first lexeme is what the lexer finds at the front, or a run of characters that begin nothing. -/
theorem cases_of_lexemes {kind : Token.Kind} (h : lexemes cs = (kind, w) :: ls) :
    (∃ t n, scan cs = some (t, n) ∧ kind = .terminal t ∧ w = cs.take n) ∨
    (scan cs = none ∧ kind = .unlexable ∧ w = cs.take (unlexableLength cs) ∧
      lexemes (cs.drop (unlexableLength cs)) = ls) := by
  cases cs with
  | nil =>
      rw [lexemes] at h
      cases h
  | cons c cs =>
      rw [lexemes_cons, List.cons.injEq, Prod.mk.injEq] at h
      obtain ⟨⟨hkind, hw⟩, hls⟩ := h
      cases hscan : scan (c :: cs) with
      | none =>
          have hlength : unlexableLength (c :: cs) = unlexableLength cs + 1 := by
            rw [unlexableLength, hscan, Nat.add_comm]
            rfl
          rw [lexeme_of_none hscan] at hkind hw hls
          rw [hlength]
          exact .inr ⟨rfl, hkind.symm, hw.symm, hls⟩
      | some x =>
          obtain ⟨t, n⟩ := x
          have hne := (lexeme_of_scan hscan).ne_nil
          rw [lexeme_of_some hscan] at hkind hw
          cases n with
          | zero => exact absurd rfl hne
          | succ n => exact .inl ⟨t, n + 1, rfl, hkind.symm, hw.symm⟩

theorem lexeme_of_lexemes {t : Terminal} (h : lexemes cs = (.terminal t, w) :: ls) : t.Lexeme w := by
  rcases cases_of_lexemes h with ⟨u, n, hscan, hkind, rfl⟩ | ⟨_, hkind, _⟩
  · cases hkind
    exact lexeme_of_scan hscan
  · cases hkind

/-- Behind a run of characters that begin nothing, something begins. -/
theorem kind_of_lexemes {kind : Token.Kind} {v : List Char}
    (h : lexemes cs = (.unlexable, w) :: (kind, v) :: ls) : kind ≠ .unlexable := by
  rintro rfl
  rcases cases_of_lexemes h with ⟨_, _, _, hkind, _⟩ | ⟨_, _, _, hrest⟩
  · cases hkind
  rcases cases_of_lexemes hrest with ⟨_, _, _, hkind, _⟩ | ⟨hnone, _⟩
  · cases hkind
  have hne : cs.drop (unlexableLength cs) ≠ [] := by
    intro hnil
    rw [hnil, lexemes] at hrest
    cases hrest
  have hlength : (cs.take (unlexableLength cs)).length = unlexableLength cs := by
    rw [List.length_take, Nat.min_eq_left (unlexableLength_le cs)]
  have hsome := scan_of_unlexableLength (u := cs.take (unlexableLength cs))
    (w := cs.drop (unlexableLength cs)) (by rw [List.take_append_drop, hlength]) hne
  rw [hnone] at hsome
  cases hsome

theorem isChain_lexemes (cs : List Char) :
    (lexemes cs).IsChain fun x y => x.1 = .unlexable → y.1 ≠ .unlexable := by
  fun_induction lexemes cs with
  | case1 => exact .nil
  | case2 c cs kind n hlexeme ih =>
      have hcons := lexemes_cons c cs
      rw [hlexeme] at hcons
      rw [List.isChain_cons]
      refine ⟨?_, ih⟩
      intro y hy hkind
      obtain ⟨ys, hys⟩ := List.head?_eq_some_iff.mp hy
      rw [hys] at hcons
      cases hkind
      exact kind_of_lexemes hcons

/-! ## Tokens of lexemes -/

theorem map_kind_place (p : Position) (xs : List (Token.Kind × List Char)) :
    (place p xs).map Token.kind = xs.map Prod.fst := by
  induction xs generalizing p with
  | nil => rfl
  | cons x xs ih => simp [place, ih]

theorem take_place (p : Position) (xs : List (Token.Kind × List Char)) (i : Nat) :
    (place p xs).take i = place p (xs.take i) := by
  induction xs generalizing p i with
  | nil => simp [place]
  | cons x xs ih =>
      cases i with
      | zero => rfl
      | succ i => rw [place, List.take_succ_cons, ih, List.take_succ_cons, place]

theorem drop_place (p : Position) (xs : List (Token.Kind × List Char)) (i : Nat) :
    (place p xs).drop i = place (p.after ((xs.take i).flatMap Prod.snd)) (xs.drop i) := by
  induction xs generalizing p i with
  | nil => simp [place]
  | cons x xs ih =>
      cases i with
      | zero => rfl
      | succ i =>
          rw [place, List.drop_succ_cons, ih, List.take_succ_cons, List.flatMap_cons,
            Position.after_append, List.drop_succ_cons]

end Lexer

/-! ## Boundaries -/

open Lexer

/-- A text from an offset on. -/
def fromOn (text : String) (offset : Nat) : String :=
  String.ofList (text.toList.drop offset)

/-- Where a token of a text starts, or where the text ends if it has no such token. -/
def boundary (text : String) (i : Nat) : Position :=
  match (tokenize text)[i]? with
  | some token => token.start
  | none => placeAt text.toList text.length

theorem boundary_eq (text : String) (i : Nat) :
    boundary text i = Position.start.after (((lexemes text.toList).take i).flatMap Prod.snd) := by
  have hget : (tokenize text)[i]? = (place (Position.start.after (((lexemes text.toList).take i).flatMap Prod.snd))
      ((lexemes text.toList).drop i)).head? := by
    rw [← List.head?_drop, tokenize, drop_place]
  rw [boundary, hget]
  cases hrest : (lexemes text.toList).drop i with
  | cons x xs => rfl
  | nil =>
      have hall := flatMap_lexemes text.toList
      rw [← List.take_append_drop i (lexemes text.toList), hrest, List.append_nil] at hall
      have hend := placeAt_append text.toList []
      rw [List.append_nil, String.length_toList] at hend
      rw [hall, ← hend]
      rfl

theorem offset_boundary (text : String) (i : Nat) :
    (boundary text i).offset = (((lexemes text.toList).take i).flatMap Prod.snd).length := by
  rw [boundary_eq, Position.offset_after]
  exact Nat.zero_add _

/-- Either part of a text that is cut at a boundary has its own tokens. -/
theorem tokenize_at_boundary (text : String) (i : Nat) :
    tokenize (upTo text (boundary text i).offset) = (tokenize text).take i ∧
    tokenize (fromOn text (boundary text i).offset) =
      ((tokenize text).drop i).map (Token.move (boundary text i).since) := by
  obtain ⟨hbefore, hbehind⟩ := lexemes_of_append (List.take_append_drop i (lexemes text.toList)).symm
  rw [← offset_boundary] at hbefore hbehind
  constructor
  · rw [tokenize, upTo, String.toList_ofList, hbefore, tokenize, take_place]
  · rw [tokenize, fromOn, String.toList_ofList, hbehind, tokenize, drop_place, ← boundary_eq,
      map_move_place (boundary text i).since_after]

/-- No line ends in a token of no terminal, and at none of its characters something begins. -/
theorem of_unlexable {text : String} {token : Token} (h : token ∈ tokenize text) (hk : token.kind = .unlexable) :
    '\n' ∉ token.text.toList ∧ ∀ offset, token.start.offset ≤ offset → offset < token.stop.offset →
      scan (text.toList.drop offset) = none := by
  obtain ⟨ls, cs, ls', hlex, htext, hstart, hstop⟩ := exists_of_mem_place h
  rw [hk] at hlex
  rcases cases_of_lexemes (lexemes_of_append hlex).2 with ⟨_, _, _, hkind, _⟩ | ⟨_, _, rfl, _⟩
  · cases hkind
  constructor
  · rw [htext, String.toList_ofList]
    exact newline_notMem_unlexable _
  · intro offset hfrom hto
    rw [hstart, Position.offset_after] at hfrom
    rw [hstop, Position.offset_after, List.length_append, List.length_take] at hto
    obtain ⟨i, rfl⟩ := Nat.exists_eq_add_of_le hfrom
    rw [Nat.add_assoc, Nat.add_lt_add_iff_left, Nat.add_lt_add_iff_left] at hto
    have hnone := scan_drop_of_lt (Nat.lt_of_lt_of_le hto (Nat.min_le_left _ _))
    rw [List.drop_drop] at hnone
    rwa [show Position.start.offset = 0 from rfl, Nat.zero_add]

theorem isChain_tokenize (text : String) :
    (tokenize text).IsChain fun a b => ¬ (a.kind = .unlexable ∧ b.kind = .unlexable) := by
  have hkinds : ((tokenize text).map Token.kind).IsChain fun a b => a = .unlexable → b ≠ .unlexable := by
    rw [tokenize, map_kind_place, List.isChain_map]
    exact isChain_lexemes text.toList
  rw [List.isChain_map] at hkinds
  exact hkinds.imp fun a b h hab => h hab.1 hab.2

theorem lexeme_of_mem_tokenize {text : String} {token : Token} (h : token ∈ tokenize text) {t : Terminal}
    (hk : token.kind = .terminal t) : t.Lexeme token.text.toList := by
  obtain ⟨ls, cs, ls', hlex, htext, _, _⟩ := exists_of_mem_place h
  rw [hk] at hlex
  rw [htext, String.toList_ofList]
  exact lexeme_of_lexemes (lexemes_of_append hlex).2

/-- A name is a letter or an underscore, with letters, digits and underscores behind it. -/
theorem name_of_mem_tokenize {text : String} {token : Token} (h : token ∈ tokenize text) (hn : token.isName) :
    ∃ c cs, token.text.toList = c :: cs ∧ isNameStart c ∧ ∀ d ∈ cs, isNamePart d := by
  generalize htext : token.text.toList = w
  have hlexeme := lexeme_of_mem_tokenize h (beq_iff_eq.mp hn)
  rw [htext] at hlexeme
  cases hlexeme with
  | literal hs => cases hs
  | name hc hcs => exact ⟨_, _, rfl, hc, hcs⟩

/-- A text that is cut where a token starts, or at its end, has the same tokens in both parts, those behind the
cut counted from there. A token of a terminal is a lexeme of it. Tokens of none are not side by side; no line
ends in one, and no lexeme begins at any of its characters. -/
theorem tokenize_in_parts (text : String) :
    (∀ i, tokenize (upTo text (boundary text i).offset) = (tokenize text).take i ∧
      tokenize (fromOn text (boundary text i).offset) =
        ((tokenize text).drop i).map (Token.move (boundary text i).since)) ∧
    ((tokenize text).IsChain fun a b => ¬ (a.kind = .unlexable ∧ b.kind = .unlexable)) ∧
    ∀ token ∈ tokenize text,
      (∀ t, token.kind = .terminal t → t.Lexeme token.text.toList) ∧
      (token.kind = .unlexable → '\n' ∉ token.text.toList ∧
        ∀ offset, token.start.offset ≤ offset → offset < token.stop.offset →
          ∀ t w, Terminal.Lexeme t w → ¬ w <+: text.toList.drop offset) := by
  refine ⟨tokenize_at_boundary text, isChain_tokenize text, ?_⟩
  intro token h
  refine ⟨fun t hk => lexeme_of_mem_tokenize h hk, ?_⟩
  intro hk
  obtain ⟨hline, hnone⟩ := of_unlexable h hk
  refine ⟨hline, ?_⟩
  rintro offset hfrom hto t w hw ⟨rest, hrest⟩
  have hsome := isSome_scan_of_lexeme hw rest
  rw [hrest, hnone offset hfrom hto] at hsome
  cases hsome

/-- A number before a point, a quote that opens no string, and a comment that is not closed. -/
theorem tokenize_in_parts_unclosed :
    let text := "1.\n\"a#/*"
    let quote : Token := ⟨.unlexable, "\"", ⟨3, 2, 1⟩, ⟨4, 2, 2⟩⟩
    tokenize "1" = (tokenize text).take 1 ∧
    tokenize "a#/*" = ((tokenize text).drop 4).map (Token.move (Position.since ⟨4, 2, 2⟩)) ∧
    quote ∈ tokenize text ∧ ∀ t w, Terminal.Lexeme t w → ¬ w <+: "\"a#/*".toList := by
  obtain ⟨hparts, _, htokens⟩ := tokenize_in_parts "1.\n\"a#/*"
  have hquote : (⟨.unlexable, "\"", ⟨3, 2, 1⟩, ⟨4, 2, 2⟩⟩ : Token) ∈ tokenize "1.\n\"a#/*" := by
    decide +kernel
  have hfirst : boundary "1.\n\"a#/*" 1 = ⟨1, 1, 2⟩ := by decide +kernel
  have hfourth : boundary "1.\n\"a#/*" 4 = ⟨4, 2, 2⟩ := by decide +kernel
  refine ⟨?_, ?_, hquote, ?_⟩
  · have hbefore := (hparts 1).1
    rw [hfirst] at hbefore
    exact hbefore
  · have hbehind := (hparts 4).2
    rw [hfourth] at hbehind
    exact hbehind
  · exact ((htokens _ hquote).2 rfl).2 3 (Nat.le_refl 3) (Nat.lt_succ_self 3)

end Typeahead
