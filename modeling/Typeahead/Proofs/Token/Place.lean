import Mathlib.Data.List.Chain
import Mathlib.Data.List.DropRight
import Typeahead.Proofs.Token.Cut

/-!
The tokens of a text divide it without a gap, and each stands where its offset says: its line and column can
be counted from the line feeds before it. It makes no difference whether the lexer goes on after characters
that begin nothing, or is started anew behind them and its places are moved.
-/

namespace Typeahead

/-! ## Places -/

/-- The column behind some characters is counted from the last line feed among them, if there is one. -/
theorem Position.after_eq (p : Position) (cs : List Char) : p.after cs =
    ⟨p.offset + cs.length, p.line + cs.count '\n',
      if '\n' ∈ cs then 1 + (cs.rtakeWhile (· != '\n')).length else p.column + cs.length⟩ := by
  induction cs using List.reverseRecOn with
  | nil => simp
  | append_singleton cs c ih =>
      rw [after_append, ih, after_cons, after_nil, next]
      by_cases hc : c = '\n'
      · subst hc
        simp [Nat.add_assoc]
      · by_cases hmem : '\n' ∈ cs
        · simp [hc, hmem, Nat.add_assoc]
        · simp [hc, Ne.symm hc, hmem, Nat.add_assoc]

/-- The place of an offset, counted from the line feeds before it. -/
def placeAt (cs : List Char) (offset : Nat) : Position :=
  let before := cs.take offset
  ⟨offset, 1 + before.count '\n', 1 + (before.rtakeWhile (· != '\n')).length⟩

theorem placeAt_append (before after : List Char) :
    placeAt (before ++ after) before.length = Position.start.after before := by
  rw [placeAt, List.take_left, Position.after_eq]
  by_cases hmem : '\n' ∈ before
  · simp [Position.start, hmem]
  · have hall : before.rtakeWhile (· != '\n') = before := by
      rw [List.rtakeWhile_eq_self_iff]
      intro c hc
      rw [bne_iff_ne]
      rintro rfl
      exact hmem hc
    simp [Position.start, hmem, hall]

theorem placeAt_eq {cs : List Char} {offset : Nat} (h : offset ≤ cs.length) :
    placeAt cs offset = Position.start.after (cs.take offset) := by
  have happend := placeAt_append (cs.take offset) (cs.drop offset)
  rwa [List.take_append_drop, List.length_take, Nat.min_eq_left h] at happend

/-- A place that was counted from another one. -/
def Position.relocate (base p : Position) : Position :=
  ⟨p.offset + base.offset, p.line + base.line - 1,
    if p.line = 1 then p.column + base.column - 1 else p.column⟩

theorem Position.relocate_after (base : Position) (cs : List Char) :
    base.relocate (start.after cs) = base.after cs := by
  rw [after_eq, after_eq, relocate]
  by_cases hmem : '\n' ∈ cs
  · have hpos := List.count_pos_iff.mpr hmem
    have hline : 1 + cs.count '\n' ≠ 1 := by omega
    simp only [start, hmem, hline, ↓reduceIte, mk.injEq, and_true]
    omega
  · have hzero := List.count_eq_zero.mpr hmem
    simp only [start, hmem, hzero, ↓reduceIte, mk.injEq]
    omega

/-- A token whose places are moved. -/
def Token.move (f : Position → Position) (token : Token) : Token :=
  { token with start := f token.start, stop := f token.stop }

namespace Lexer

theorem map_move_place {f : Position → Position} {p q : Position} (h : ∀ cs, f (p.after cs) = q.after cs)
    (xs : List (Token.Kind × List Char)) : (place p xs).map (Token.move f) = place q xs := by
  induction xs generalizing p q with
  | nil => rfl
  | cons x xs ih =>
      have hp : f p = q := h []
      have hrest : ∀ cs, f ((p.after x.2).after cs) = (q.after x.2).after cs := by
        intro cs
        rw [← Position.after_append, ← Position.after_append]
        exact h _
      rw [place, List.map_cons, ih hrest, place, Token.move, hp, h]

/-! ## Characters that begin nothing -/

theorem scan_newline (cs : List Char) : (scan ('\n' :: cs)).isSome := by
  rw [scan_eq]
  simp [name?, isNameStart, number?, runLength, string?, delimitedComment?, lineComment?, blank?, isBlank]

theorem scan_drop_of_lt {cs : List Char} {i : Nat} (h : i < unlexableLength cs) : scan (cs.drop i) = none := by
  induction cs generalizing i with
  | nil => cases h
  | cons c cs ih =>
      rw [unlexableLength] at h
      split at h
      · cases h
      · rename_i hscan
        cases i with
        | zero => simpa using hscan
        | succ i =>
            apply ih
            omega

theorem newline_notMem_unlexable (cs : List Char) : '\n' ∉ cs.take (unlexableLength cs) := by
  intro hmem
  obtain ⟨i, hi, hget⟩ := List.mem_take_iff_getElem.mp hmem
  have hscan := scan_drop_of_lt (i := i) (Nat.lt_of_lt_of_le hi (Nat.min_le_left _ _))
  rw [List.drop_eq_getElem_cons (by omega), hget] at hscan
  have hsome := scan_newline (cs.drop (i + 1))
  rw [hscan] at hsome
  cases hsome

/-! ## A lexer that is started anew -/

/-- The lexemes at the front up to a character that begins none, and what is left. -/
def readable : List Char → List (Token.Kind × List Char) × List Char
  | [] => ([], [])
  | c :: cs =>
    match scan (c :: cs) with
    | none => ([], c :: cs)
    | some (t, n) =>
      let (xs, rest) := readable (cs.drop (n - 1))
      ((.terminal t, c :: cs.take (n - 1)) :: xs, rest)
termination_by cs => cs.length
decreasing_by
  simp only [List.length_drop, List.length_cons]
  omega

theorem lexemes_readable (cs : List Char) : lexemes cs = (readable cs).1 ++ lexemes (readable cs).2 := by
  fun_induction readable cs with
  | case1 => rfl
  | case2 => rfl
  | case3 c cs t n hscan xs rest hrest ih =>
      rw [hrest] at ih
      rw [lexemes_cons, lexeme_of_some hscan, ih]
      rfl

theorem scan_readable (cs : List Char) (h : (readable cs).2 ≠ []) : scan (readable cs).2 = none := by
  fun_induction readable cs with
  | case1 => exact absurd rfl h
  | case2 c cs hscan => exact hscan
  | case3 c cs t n hscan xs rest hrest ih =>
      rw [hrest] at ih
      exact ih h

theorem length_readable (cs : List Char) : (readable cs).2.length ≤ cs.length := by
  fun_induction readable cs with
  | case1 => exact Nat.le_refl _
  | case2 => exact Nat.le_refl _
  | case3 c cs t n hscan xs rest hrest ih =>
      rw [hrest, List.length_drop] at ih
      change rest.length ≤ cs.length - (n - 1) at ih
      change rest.length ≤ cs.length + 1
      omega

/-- The tokens of a text from a place on, read piece by piece. Each piece is read as if a text began there, and
its tokens are moved. The characters between two pieces begin nothing; they are taken to be on one line. -/
def resume (base : Position) (cs : List Char) : List Token :=
  match _ : readable cs with
  | (xs, []) => (place Position.start xs).map (Token.move base.relocate)
  | (xs, c :: rest) =>
    let fault := base.relocate (Position.start.after (xs.flatMap Prod.snd))
    let n := unlexableLength rest
    let stop := ⟨fault.offset + (n + 1), fault.line, fault.column + (n + 1)⟩
    (place Position.start xs).map (Token.move base.relocate) ++
      ⟨.unlexable, String.ofList (c :: rest.take n), fault, stop⟩ :: resume stop (rest.drop n)
termination_by cs.length
decreasing_by
  rename_i h
  have hle := length_readable cs
  rw [h, List.length_cons] at hle
  rw [List.length_drop]
  omega

/-- Where no line ends, only the column goes on. -/
theorem after_of_notMem {cs : List Char} (p : Position) (h : '\n' ∉ cs) :
    p.after cs = ⟨p.offset + cs.length, p.line, p.column + cs.length⟩ := by
  rw [Position.after_eq, if_neg h, List.count_eq_zero.mpr h, Nat.add_zero]

theorem place_lexemes (base : Position) (cs : List Char) : place base (lexemes cs) = resume base cs := by
  fun_induction resume base cs with
  | case1 base cs xs h =>
      rw [lexemes_readable, h, map_move_place base.relocate_after, lexemes, List.append_nil]
  | case2 base cs xs c rest h fault n stop ih =>
      have hnone : scan (c :: rest) = none := by
        have hscan := scan_readable cs
        rw [h] at hscan
        exact hscan (List.cons_ne_nil c rest)
      have hline : '\n' ∉ c :: rest.take n := by
        have hnot := newline_notMem_unlexable (c :: rest)
        rw [unlexableLength, hnone, Nat.add_comm] at hnot
        exact hnot
      have hlen : (c :: rest.take n).length = n + 1 := by
        rw [List.length_cons, List.length_take, Nat.min_eq_left (unlexableLength_le rest)]
      have hstop : fault.after (c :: rest.take n) = stop := by
        rw [after_of_notMem fault hline, hlen]
      have hfault : base.after (xs.flatMap Prod.snd) = fault := (base.relocate_after _).symm
      rw [lexemes_readable, h, place_append, map_move_place base.relocate_after, lexemes_cons,
        lexeme_of_none hnone, hfault, place, hstop, ih]

/-! ## Tokens side by side -/

/-- A token is a lexeme behind the lexemes before it. -/
theorem exists_of_mem_place {p : Position} {xs : List (Token.Kind × List Char)} {token : Token}
    (h : token ∈ place p xs) : ∃ ls cs ls', xs = ls ++ (token.kind, cs) :: ls' ∧
      token.text = String.ofList cs ∧ token.start = p.after (ls.flatMap Prod.snd) ∧
      token.stop = p.after (ls.flatMap Prod.snd ++ cs) := by
  induction xs generalizing p with
  | nil => cases h
  | cons x xs ih =>
      rw [place] at h
      rcases List.mem_cons.mp h with rfl | h
      · exact ⟨[], x.2, xs, rfl, rfl, rfl, rfl⟩
      · obtain ⟨ls, cs, ls', rfl, htext, hstart, hstop⟩ := ih h
        refine ⟨x :: ls, cs, ls', rfl, htext, ?_, ?_⟩
        · rw [hstart, List.flatMap_cons, Position.after_append]
        · rw [hstop, List.flatMap_cons, List.append_assoc, Position.after_append p]

theorem head?_place {p : Position} {xs : List (Token.Kind × List Char)} :
    ∀ token ∈ (place p xs).head?, token.start = p := by
  cases xs with
  | nil => simp [place]
  | cons x xs => simp [place]

theorem isChain_place (p : Position) (xs : List (Token.Kind × List Char)) :
    (place p xs).IsChain fun a b => a.stop = b.start := by
  induction xs generalizing p with
  | nil => exact .nil
  | cons x xs ih =>
      rw [place, List.isChain_cons]
      refine ⟨?_, ih _⟩
      intro token htoken
      exact (head?_place token htoken).symm

theorem getLast?_place {p : Position} {xs : List (Token.Kind × List Char)} :
    ∀ token ∈ (place p xs).getLast?, token.stop = p.after (xs.flatMap Prod.snd) := by
  induction xs using List.reverseRecOn with
  | nil => simp [place]
  | append_singleton xs x _ => simp [place_append, place, Position.after_append]

theorem flatMap_text_place (p : Position) (xs : List (Token.Kind × List Char)) :
    (place p xs).flatMap (·.text.toList) = xs.flatMap Prod.snd := by
  induction xs generalizing p with
  | nil => rfl
  | cons x xs ih => simp [place, ih]

end Lexer

open Lexer in
/-- The tokens of a text have some extent each, make up the text, and stand side by side from its start to its
end. Each is the text between its offsets, and its places are those of its offsets. They are the same if the
lexer is started anew after every run of characters that begin nothing. -/
theorem tokenize_divides (text : String) :
    tokenize text = resume Position.start text.toList ∧
    String.join ((tokenize text).map Token.text) = text ∧
    ((tokenize text).IsChain fun a b => a.stop.offset = b.start.offset) ∧
    (∀ token ∈ (tokenize text).head?, token.start.offset = 0) ∧
    (∀ token ∈ (tokenize text).getLast?, token.stop.offset = text.length) ∧
    ∀ token ∈ tokenize text, token.text ≠ "" ∧
      token.text.toList = (text.toList.take token.stop.offset).drop token.start.offset ∧
      token.start = placeAt text.toList token.start.offset ∧
      token.stop = placeAt text.toList token.stop.offset := by
  refine ⟨place_lexemes _ _, ?_, ?_, ?_, ?_, ?_⟩
  · rw [← String.toList_inj, String.toList_join, List.flatMap_map]
    exact (flatMap_text_place _ _).trans (flatMap_lexemes _)
  · exact (isChain_place _ _).imp fun _ _ h => congrArg Position.offset h
  · intro token h
    exact congrArg Position.offset (head?_place token h)
  · intro token h
    rw [getLast?_place token h, flatMap_lexemes, Position.offset_after, String.length_toList]
    exact Nat.zero_add _
  · intro token h
    obtain ⟨ls, cs, ls', hlex, htext, hstart, hstop⟩ := exists_of_mem_place h
    obtain ⟨before, hbefore⟩ : ∃ before, ls.flatMap Prod.snd = before := ⟨_, rfl⟩
    have hsplit : text.toList = before ++ cs ++ ls'.flatMap Prod.snd := by
      rw [← flatMap_lexemes text.toList, hlex, List.flatMap_append, List.flatMap_cons, hbefore,
        List.append_assoc]
    rw [hbefore] at hstart hstop
    have hfrom : token.start.offset = before.length := by
      rw [hstart, Position.offset_after]
      exact Nat.zero_add _
    have hto : token.stop.offset = (before ++ cs).length := by
      rw [hstop, Position.offset_after]
      exact Nat.zero_add _
    refine ⟨?_, ?_, ?_, ?_⟩
    · intro hnil
      have hmissing := isMissing_of_mem_tokenize h
      simp [Token.isMissing, hnil] at hmissing
    · rw [hfrom, hto, hsplit, List.take_left, List.drop_left, htext, String.toList_ofList]
    · rw [hfrom, hsplit, List.append_assoc, placeAt_append, hstart]
    · rw [hto, hsplit, placeAt_append, hstop]

/-- Two runs of characters that begin nothing, on two lines, and a number behind them. -/
theorem tokenize_divides_faults :
    let text := "a#\n/*\n*/ @1"
    let number : Token := ⟨.terminal .number, "1", ⟨10, 3, 5⟩, ⟨11, 3, 6⟩⟩
    number ∈ tokenize text ∧ ((tokenize text).filter (·.kind == .unlexable)).length = 2 ∧
    number.start = placeAt text.toList 10 ∧ number.stop = placeAt text.toList 11 := by
  have hmem : (⟨.terminal .number, "1", ⟨10, 3, 5⟩, ⟨11, 3, 6⟩⟩ : Token) ∈ tokenize "a#\n/*\n*/ @1" := by
    decide +kernel
  obtain ⟨_, _, _, _, _, hall⟩ := tokenize_divides "a#\n/*\n*/ @1"
  exact ⟨hmem, by decide +kernel, (hall _ hmem).2.2⟩

end Typeahead
