import Mathlib.Data.List.TakeWhile
import Typeahead.Proofs.Token.Cut

/-!
The lexemes of each terminal, as the grammar writes them down. What the lexer finds is one of them, and it
finds something wherever one begins.
-/

namespace Typeahead

open Lexer

/-- What can stand between the quotes of a string. -/
inductive Quotable : List Char → Prop
  | nil : Quotable []
  | plain {c : Char} {cs : List Char} :
      c ≠ '"' → c ≠ '\\' → c ≠ '\n' → Quotable cs → Quotable (c :: cs)
  | escape {c : Char} {cs : List Char} : c ≠ '\n' → Quotable cs → Quotable ('\\' :: c :: cs)

/-- The lexemes of a terminal. -/
inductive Terminal.Lexeme : Terminal → List Char → Prop
  | literal {t : Terminal} {s : String} : t.literal? = some s → Lexeme t s.toList
  | name {c : Char} {cs : List Char} :
      isNameStart c → (∀ d ∈ cs, isNamePart d) → Lexeme .name (c :: cs)
  | whole {ds : List Char} : ds ≠ [] → (∀ d ∈ ds, d.isDigit) → Lexeme .number ds
  | fraction {ds fs : List Char} : ds ≠ [] → (∀ d ∈ ds, d.isDigit) → fs ≠ [] → (∀ d ∈ fs, d.isDigit) →
      Lexeme .number (ds ++ '.' :: fs)
  | string {cs : List Char} : Quotable cs → Lexeme .string ('"' :: cs ++ ['"'])
  | lineComment {cs : List Char} : '\n' ∉ cs → Lexeme .lineComment ('/' :: '/' :: cs)
  | delimitedComment (cs : List Char) : Lexeme .delimitedComment ('/' :: '*' :: cs ++ ['*', '/'])
  | ws {cs : List Char} : cs ≠ [] → (∀ c ∈ cs, isBlank c) → Lexeme .ws cs

theorem Terminal.Lexeme.ne_nil {t : Terminal} {w : List Char} (h : t.Lexeme w) : w ≠ [] := by
  cases h with
  | literal hs => cases t <;> cases hs <;> decide
  | whole hne _ => exact hne
  | ws hne _ => exact hne
  | _ => simp

namespace Lexer

variable {p : Char → Bool} {cs : List Char} {n : Nat}

/-! ## Runs and marks -/

theorem take_runLength (p : Char → Bool) (cs : List Char) : cs.take (runLength p cs) = cs.takeWhile p :=
  (List.prefix_iff_eq_take.mp (List.takeWhile_prefix p)).symm

theorem runLength_append_ne_zero (hne : cs ≠ []) (h : ∀ c ∈ cs, p c) (rest : List Char) :
    runLength p (cs ++ rest) ≠ 0 := by
  cases cs with
  | nil => exact absurd rfl hne
  | cons c cs => simp [runLength, h c List.mem_cons_self]

theorem isSome_untilQuote? {body : List Char} (h : Quotable body) (rest : List Char) :
    (untilQuote? (body ++ '"' :: rest)).isSome := by
  induction h with
  | nil => simp [untilQuote?_cons]
  | plain hq hb hl _ ih => simpa [untilQuote?_cons, hq, hb, hl] using ih
  | escape hl _ ih => simpa [untilQuote?_cons, hl] using ih

theorem quotable_of_untilQuote? (h : untilQuote? cs = some n) :
    ∃ body, cs.take n = body ++ ['"'] ∧ Quotable body := by
  fun_induction untilQuote? cs generalizing n with
  | case2 cs =>
      cases h
      exact ⟨[], rfl, .nil⟩
  | case6 d ds hd _ _ ih =>
      obtain ⟨m, hm, rfl⟩ := Option.map_eq_some_iff.mp h
      obtain ⟨body, hbody, hq⟩ := ih hm
      exact ⟨'\\' :: d :: body, by simp [hbody], .escape hd hq⟩
  | case7 c cs hq hl hb ih =>
      obtain ⟨m, hm, rfl⟩ := Option.map_eq_some_iff.mp h
      obtain ⟨body, hbody, hquotable⟩ := ih hm
      exact ⟨c :: body, by simp [hbody], .plain hq hb hl hquotable⟩
  | _ => cases h

theorem isSome_untilCommentEnd? (body rest : List Char) :
    (untilCommentEnd? (body ++ '*' :: '/' :: rest)).isSome := by
  induction body with
  | nil => rfl
  | cons c body ih =>
      rw [List.cons_append, untilCommentEnd?_cons]
      split
      · rfl
      · simpa using ih

theorem take_of_untilCommentEnd? (h : untilCommentEnd? cs = some n) :
    ∃ body, cs.take n = body ++ ['*', '/'] := by
  induction cs generalizing n with
  | nil => cases h
  | cons c cs ih =>
      rw [untilCommentEnd?_cons] at h
      split at h
      · rename_i hend
        obtain ⟨rfl, hslash⟩ := hend
        obtain ⟨ds, rfl⟩ := List.head?_eq_some_iff.mp hslash
        cases h
        exact ⟨[], rfl⟩
      · obtain ⟨m, hm, rfl⟩ := Option.map_eq_some_iff.mp h
        obtain ⟨body, hbody⟩ := ih hm
        exact ⟨c :: body, by simp [hbody]⟩

/-! ## What is found is a lexeme -/

theorem lexeme_of_name? (h : name? cs = some n) :
    ((keyword? (cs.take n)).getD .name).Lexeme (cs.take n) := by
  cases hk : keyword? (cs.take n) with
  | some t =>
      have ht := List.find?_some hk
      rw [beq_iff_eq] at ht
      simpa using Terminal.Lexeme.literal ht
  | none =>
      cases cs with
      | nil => cases h
      | cons c cs =>
          simp only [name?, Option.ite_none_right_eq_some, Option.some.injEq] at h
          obtain ⟨hc, rfl⟩ := h
          rw [Nat.add_comm, List.take_succ_cons, take_runLength]
          exact .name hc fun d hd => List.mem_takeWhile_imp hd

theorem lexeme_of_number? (h : number? cs = some n) : Terminal.number.Lexeme (cs.take n) := by
  obtain ⟨hw, h⟩ := number?_eq_some.mp h
  have hne : cs.takeWhile Char.isDigit ≠ [] := by
    rw [← List.length_pos_iff]
    exact Nat.pos_of_ne_zero hw
  rcases h with ⟨rest, hrest, hf, rfl⟩ | ⟨_, rfl⟩
  · have hfne : rest.takeWhile Char.isDigit ≠ [] := by
      rw [← List.length_pos_iff]
      exact Nat.pos_of_ne_zero hf
    have htake : cs.take (runLength Char.isDigit cs + 1 + runLength Char.isDigit rest) =
        cs.takeWhile Char.isDigit ++ '.' :: rest.takeWhile Char.isDigit := by
      rw [Nat.add_assoc, List.take_add, hrest, take_runLength, Nat.add_comm 1, List.take_succ_cons,
        take_runLength]
    rw [htake]
    exact .fraction hne (fun d hd => List.mem_takeWhile_imp hd) hfne fun d hd => List.mem_takeWhile_imp hd
  · rw [take_runLength]
    exact .whole hne fun d hd => List.mem_takeWhile_imp hd

theorem lexeme_of_string? (h : string? cs = some n) : Terminal.string.Lexeme (cs.take n) := by
  unfold string? at h
  split at h
  · obtain ⟨m, hm, rfl⟩ := Option.map_eq_some_iff.mp h
    obtain ⟨body, hbody, hq⟩ := quotable_of_untilQuote? hm
    rw [List.take_succ_cons, hbody]
    exact .string hq
  · cases h

theorem lexeme_of_delimitedComment? (h : delimitedComment? cs = some n) :
    Terminal.delimitedComment.Lexeme (cs.take n) := by
  unfold delimitedComment? at h
  split at h
  · obtain ⟨m, hm, rfl⟩ := Option.map_eq_some_iff.mp h
    obtain ⟨body, hbody⟩ := take_of_untilCommentEnd? hm
    rw [List.take_succ_cons, List.take_succ_cons, hbody]
    exact .delimitedComment body
  · cases h

theorem lexeme_of_lineComment? (h : lineComment? cs = some n) : Terminal.lineComment.Lexeme (cs.take n) := by
  unfold lineComment? at h
  split at h
  · obtain rfl := Option.some.inj h
    rw [Nat.add_comm, List.take_succ_cons, List.take_succ_cons, take_runLength]
    refine .lineComment fun hmem => ?_
    simpa using List.mem_takeWhile_imp hmem
  · cases h

theorem lexeme_of_blank? (h : blank? cs = some n) : Terminal.ws.Lexeme (cs.take n) := by
  simp only [blank?, Option.ite_none_left_eq_some, Option.some.injEq] at h
  obtain ⟨hne, rfl⟩ := h
  rw [take_runLength]
  refine .ws ?_ fun c hc => List.mem_takeWhile_imp hc
  rw [← List.length_pos_iff]
  exact Nat.pos_of_ne_zero hne

theorem lexeme_of_punctuation? {t : Terminal} (h : punctuation? cs = some (t, n)) : t.Lexeme (cs.take n) := by
  obtain ⟨t', _, ht⟩ := List.exists_of_findSome?_eq_some h
  split at ht
  · rename_i s hs
    simp only [Option.ite_none_right_eq_some, List.isPrefixOf_iff_prefix, Option.some.injEq,
      Prod.mk.injEq] at ht
    obtain ⟨hp, rfl, rfl⟩ := ht
    rw [← String.length_toList, ← List.prefix_iff_eq_take.mp hp]
    exact .literal hs
  · cases ht

/-- What the lexer finds at the front is a lexeme of the terminal that it names. -/
theorem lexeme_of_scan {t : Terminal} (h : scan cs = some (t, n)) : t.Lexeme (cs.take n) := by
  have hlabel {f : List Char → Option Nat} {u : Terminal} (hf : ∀ {m}, f cs = some m → u.Lexeme (cs.take m))
      (h : (f cs).map (fun m => (u, m)) = some (t, n)) : t.Lexeme (cs.take n) := by
    obtain ⟨m, hm, heq⟩ := Option.map_eq_some_iff.mp h
    cases heq
    exact hf hm
  rw [scan_eq] at h
  rcases Option.or_eq_some_iff.mp h with h | ⟨_, h⟩
  · obtain ⟨m, hm, heq⟩ := Option.map_eq_some_iff.mp h
    cases heq
    exact lexeme_of_name? hm
  rcases Option.or_eq_some_iff.mp h with h | ⟨_, h⟩
  · exact hlabel lexeme_of_number? h
  rcases Option.or_eq_some_iff.mp h with h | ⟨_, h⟩
  · exact hlabel lexeme_of_string? h
  rcases Option.or_eq_some_iff.mp h with h | ⟨_, h⟩
  · exact hlabel lexeme_of_delimitedComment? h
  rcases Option.or_eq_some_iff.mp h with h | ⟨_, h⟩
  · exact hlabel lexeme_of_lineComment? h
  rcases Option.or_eq_some_iff.mp h with h | ⟨_, h⟩
  · exact hlabel lexeme_of_blank? h
  · exact lexeme_of_punctuation? h

/-! ## Something is found where a lexeme begins -/

theorem isSome_scan_iff (cs : List Char) : (scan cs).isSome ↔ (name? cs).isSome ∨ (number? cs).isSome ∨
    (string? cs).isSome ∨ (delimitedComment? cs).isSome ∨ (lineComment? cs).isSome ∨ (blank? cs).isSome ∨
    (punctuation? cs).isSome := by
  rw [scan_eq]
  simp

theorem literal_cases {t : Terminal} {s : String} (h : t.literal? = some s) :
    t ∈ Terminal.punctuation ∨ s.toList.head?.any isNameStart := by
  cases t <;> cases h <;> decide

/-- Wherever a lexeme begins, the lexer finds one. -/
theorem isSome_scan_of_lexeme {t : Terminal} {w : List Char} (h : t.Lexeme w) (rest : List Char) :
    (scan (w ++ rest)).isSome := by
  rw [isSome_scan_iff]
  cases h with
  | @literal _ s hs =>
      rcases literal_cases hs with ht | hany
      · have hfound : (punctuation? (s.toList ++ rest)).isSome := by
          rw [punctuation?, List.findSome?_isSome_iff]
          exact ⟨t, ht, by simp [hs]⟩
        simp [hfound]
      · obtain ⟨c, hc, hstart⟩ := (Option.any_eq_true _ _).mp hany
        obtain ⟨cs, hcs⟩ := List.head?_eq_some_iff.mp hc
        simp [hcs, name?, hstart]
  | name hc _ => simp [name?, hc]
  | whole hne hd =>
      have hrun := runLength_append_ne_zero hne hd rest
      simp [Option.isSome_iff_ne_none, number?_eq_none, hrun]
  | @fraction ds fs hne hd _ _ =>
      have hrun := runLength_append_ne_zero hne hd ('.' :: (fs ++ rest))
      simp [Option.isSome_iff_ne_none, number?_eq_none, hrun]
  | string hq =>
      have hquote := isSome_untilQuote? hq rest
      simp [string?, hquote]
  | lineComment _ => simp [lineComment?]
  | delimitedComment body =>
      have hend := isSome_untilCommentEnd? body rest
      simp [delimitedComment?, hend]
  | ws hne hb =>
      have hrun := runLength_append_ne_zero hne hb rest
      simp [blank?, hrun]

end Lexer

end Typeahead
