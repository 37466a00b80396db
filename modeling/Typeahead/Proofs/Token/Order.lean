import Mathlib.Data.List.Nodup
import Typeahead.Parser

/-!
The order of the tokens of a text. Each has some extent, so each starts after the one before it: no two
are equal, no two are at one line and column, and none is mistaken for one that the parser made up.
-/

namespace Typeahead

@[simp] theorem Position.offset_next (p : Position) (c : Char) : (p.next c).offset = p.offset + 1 := by
  unfold next
  split <;> rfl

@[simp] theorem Position.offset_after (p : Position) (cs : List Char) :
    (p.after cs).offset = p.offset + cs.length := by
  induction cs generalizing p with
  | nil => rfl
  | cons c cs ih =>
      simp only [Position.after_cons, ih, Position.offset_next, List.length_cons]
      omega

/-- Whether a place comes before another in the order of reading. -/
def Position.Before (p q : Position) : Prop :=
  p.line < q.line ∨ p.line = q.line ∧ p.column < q.column

theorem Position.before_next (p : Position) (c : Char) : p.Before (p.next c) := by
  by_cases hc : c = '\n' <;> simp [Before, next, hc]

theorem Position.Before.trans {p q r : Position} (h : p.Before q) (h' : q.Before r) : p.Before r := by
  unfold Before at h h' ⊢
  omega

theorem Position.before_after (p : Position) {cs : List Char} (h : cs ≠ []) : p.Before (p.after cs) := by
  induction cs generalizing p with
  | nil => exact absurd rfl h
  | cons c cs ih =>
      cases cs with
      | nil => exact p.before_next c
      | cons d ds => exact (p.before_next c).trans (ih (p.next c) (List.cons_ne_nil d ds))

theorem Position.line_le_after (p : Position) (cs : List Char) : p.line ≤ (p.after cs).line := by
  by_cases h : cs = []
  · simp [h]
  · have hb := p.before_after h
    unfold Before at hb
    omega

namespace Lexer

theorem ne_nil_of_mem_lexemes {cs : List Char} : ∀ x ∈ lexemes cs, x.2 ≠ [] := by
  fun_induction lexemes cs with
  | case1 => simp
  | case2 c cs kind n _ ih => simpa using ih

/-- Lexemes that have some extent start at or after the place where they are put. -/
theorem le_start_of_mem_place {p : Position} {xs : List (Token.Kind × List Char)} :
    ∀ token ∈ place p xs, p.offset ≤ token.start.offset := by
  induction xs generalizing p with
  | nil => simp [place]
  | cons x xs ih =>
      simp only [place, List.forall_mem_cons]
      refine ⟨Nat.le_refl _, fun token h => ?_⟩
      have hle := ih token h
      rw [Position.offset_after] at hle
      omega

theorem pairwise_place {p : Position} {xs : List (Token.Kind × List Char)}
    (h : ∀ x ∈ xs, x.2 ≠ []) :
    (place p xs).Pairwise fun a b => a.start.offset < b.start.offset := by
  induction xs generalizing p with
  | nil => exact .nil
  | cons x xs ih =>
      rw [List.forall_mem_cons] at h
      refine .cons (fun token ht => ?_) (ih h.2)
      have hle := le_start_of_mem_place token ht
      have hpos := List.length_pos_iff.mpr h.1
      rw [Position.offset_after] at hle
      change p.offset < token.start.offset
      omega

theorem isMissing_of_mem_place {p : Position} {xs : List (Token.Kind × List Char)}
    (h : ∀ x ∈ xs, x.2 ≠ []) : ∀ token ∈ place p xs, token.isMissing = false := by
  induction xs generalizing p with
  | nil => simp [place]
  | cons x xs ih =>
      rw [List.forall_mem_cons] at h
      simp only [place, List.forall_mem_cons]
      exact ⟨by simp [Token.isMissing, h.1], ih h.2⟩

theorem stop_of_mem_place {p : Position} {xs : List (Token.Kind × List Char)} :
    ∀ token ∈ place p xs, token.stop = token.start.after token.text.toList := by
  induction xs generalizing p with
  | nil => simp [place]
  | cons x xs ih =>
      simp only [place, List.forall_mem_cons, String.toList_ofList, true_and]
      exact ih

theorem start_of_mem_place {p : Position} {xs : List (Token.Kind × List Char)} :
    ∀ token ∈ place p xs, ∃ cs, token.start = p.after cs := by
  induction xs generalizing p with
  | nil => simp [place]
  | cons x xs ih =>
      simp only [place, List.forall_mem_cons]
      refine ⟨⟨[], rfl⟩, fun token h => ?_⟩
      obtain ⟨cs, hcs⟩ := ih token h
      exact ⟨x.2 ++ cs, by rw [hcs, Position.after_append]⟩

/-- Each token starts where an earlier one stops, or some characters further on. -/
theorem pairwise_place_after {p : Position} {xs : List (Token.Kind × List Char)} :
    (place p xs).Pairwise fun a b => ∃ cs, b.start = a.stop.after cs := by
  induction xs generalizing p with
  | nil => exact .nil
  | cons x xs ih => exact .cons (fun token h => start_of_mem_place token h) ih

end Lexer

theorem pairwise_tokenize (text : String) :
    (tokenize text).Pairwise fun a b => a.start.offset < b.start.offset :=
  Lexer.pairwise_place Lexer.ne_nil_of_mem_lexemes

theorem isMissing_of_mem_tokenize {text : String} {token : Token} (h : token ∈ tokenize text) :
    token.isMissing = false :=
  Lexer.isMissing_of_mem_place Lexer.ne_nil_of_mem_lexemes token h

theorem nodup_of_pairwise {tokens : List Token}
    (h : tokens.Pairwise fun a b => a.start.offset < b.start.offset) : tokens.Nodup := by
  refine h.imp fun hlt => ?_
  rintro rfl
  exact Nat.lt_irrefl _ hlt

theorem stop_of_mem_tokenize {text : String} {token : Token} (h : token ∈ tokenize text) :
    token.stop = token.start.after token.text.toList :=
  Lexer.stop_of_mem_place token h

theorem pairwise_tokenize_after (text : String) :
    (tokenize text).Pairwise fun a b => ∃ cs, b.start = a.stop.after cs :=
  Lexer.pairwise_place_after

theorem before_of_after {text : String} {a b : Token} (ha : a ∈ tokenize text) {cs : List Char}
    (h : b.start = a.stop.after cs) : a.start.Before b.start := by
  have hne : a.text.toList ≠ [] := by
    have hm := isMissing_of_mem_tokenize ha
    simpa [Token.isMissing] using hm
  rw [h, stop_of_mem_tokenize ha, ← Position.after_append]
  exact a.start.before_after (List.append_ne_nil_of_left_ne_nil hne cs)

/-- Line and column tell the tokens of a text apart. -/
theorem eq_of_line_column {text : String} {a b : Token} (ha : a ∈ tokenize text) (hb : b ∈ tokenize text)
    (hl : a.start.line = b.start.line) (hc : a.start.column = b.start.column) : a = b := by
  have hnodup : ((tokenize text).map fun t => (t.start.line, t.start.column)).Nodup := by
    refine List.pairwise_map.mpr ((pairwise_tokenize_after text).imp_of_mem ?_)
    rintro a b ha _ ⟨cs, h⟩ heq
    have hbefore := before_of_after ha h
    simp only [Prod.mk.injEq] at heq
    unfold Position.Before at hbefore
    omega
  exact List.inj_on_of_nodup_map hnodup ha hb (Prod.ext hl hc)

theorem nodup_significant (text : String) : (significant (tokenize text)).Nodup :=
  nodup_of_pairwise ((pairwise_tokenize text).filter _)

end Typeahead
