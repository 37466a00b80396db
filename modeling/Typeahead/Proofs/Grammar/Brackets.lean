import Typeahead.Proofs.Grammar.Pattern

/-!
Brackets in the grammar. Whatever a rule generates closes the brackets that it opens, so the brackets that
some symbols leave open are those that stand among them as terminals.
-/

namespace Typeahead

variable {t : Terminal} {bs : List Terminal}

/-! ## Nesting -/

namespace Terminal

/-- Whether a terminal is a bracket that has to be closed. -/
def opens : Terminal → Bool
  | .lpar | .lbrace => true
  | _ => false

/-- The bracket that a terminal closes. -/
def opening? : Terminal → Option Terminal
  | .rpar => some .lpar
  | .rbrace => some .lbrace
  | _ => none

def isBracket (t : Terminal) : Bool :=
  t.opens || t.opening?.isSome

theorem opens_of_opening? {o : Terminal} (h : t.opening? = some o) : t.opens = false ∧ o.opens := by
  cases t <;> cases h <;> exact ⟨rfl, rfl⟩

end Terminal

/-- The open brackets, innermost first, after one more terminal. -/
def nest (bs : List Terminal) (t : Terminal) : List Terminal :=
  if t.opens then t :: bs
  else if t.opening?.isSome ∧ bs.head? = t.opening? then bs.tail
  else bs

/-- The brackets that some terminals leave open, innermost first. -/
def unclosed (ts : List Terminal) : List Terminal :=
  ts.foldl nest []

theorem nest_of_not_isBracket (h : t.isBracket = false) : nest bs t = bs := by
  simp only [Terminal.isBracket, Bool.or_eq_false_iff] at h
  simp [nest, h]

theorem nest_of_opens (h : t.opens) : nest bs t = t :: bs := by
  simp [nest, h]

theorem nest_of_opening? {o : Terminal} (h : t.opening? = some o) : nest (o :: bs) t = bs := by
  simp [nest, (Terminal.opens_of_opening? h).1, h]

theorem length_nest_le (bs : List Terminal) (t : Terminal) :
    (nest bs t).length ≤ bs.length + if t.opens then 1 else 0 := by
  unfold nest
  split
  · simp
  · split <;> simp

theorem unclosed_append (ts us : List Terminal) : unclosed (ts ++ us) = us.foldl nest (unclosed ts) :=
  List.foldl_append

/-- Only brackets count. -/
theorem foldl_nest_filter (ts bs : List Terminal) :
    (ts.filter Terminal.isBracket).foldl nest bs = ts.foldl nest bs := by
  induction ts generalizing bs with
  | nil => rfl
  | cons t ts ih =>
      cases ht : t.isBracket with
      | true => rw [List.filter_cons_of_pos ht, List.foldl_cons, List.foldl_cons, ih]
      | false =>
          rw [List.filter_cons_of_neg (by simp [ht]), List.foldl_cons, nest_of_not_isBracket ht, ih]

/-! ## Rules -/

namespace Pattern

/-- The brackets written in a pattern. -/
def brackets : Pattern → List Terminal
  | .empty | .r _ => []
  | .t terminal => [terminal].filter Terminal.isBracket
  | .seq p q | .alt p q => p.brackets ++ q.brackets
  | .more p => p.brackets

/-- Whether no bracket of a pattern is in one of several alternatives, or in a repetition. -/
def steady : Pattern → Bool
  | .empty | .t _ | .r _ => true
  | .seq p q => p.steady && q.steady
  | .alt p q => p.steady && q.steady && (p.brackets ++ q.brackets).isEmpty
  | .more p => p.steady && p.brackets.isEmpty

end Pattern

theorem steady_pattern (rule : Rule) : rule.pattern.steady := by
  cases rule <;> decide

/-- A rule has at most one pair of brackets. -/
theorem brackets_pattern (rule : Rule) :
    rule.pattern.brackets ∈ [[], [.lpar, .rpar], [.lbrace, .rbrace]] := by
  cases rule <;> decide

theorem foldl_nest_brackets (rule : Rule) (bs : List Terminal) :
    rule.pattern.brackets.foldl nest bs = bs := by
  have hmem := brackets_pattern rule
  simp only [List.mem_cons, List.not_mem_nil, or_false] at hmem
  rcases hmem with h | h | h <;> rw [h] <;> rfl

/-- What a pattern generates opens and closes the brackets that are written in it, and no others. -/
theorem Generates.foldl_nest {p : Pattern} {w : List Terminal} (h : Generates p w) (hp : p.steady)
    (bs : List Terminal) : w.foldl nest bs = p.brackets.foldl nest bs := by
  induction h generalizing bs with
  | empty => rfl
  | t => exact (foldl_nest_filter _ bs).symm
  | @r rule w _ ih => exact (ih (steady_pattern rule) bs).trans (foldl_nest_brackets rule bs)
  | seq _ _ ihp ihq =>
      simp only [Pattern.steady, Bool.and_eq_true] at hp
      rw [List.foldl_append, ihp hp.1, ihq hp.2, Pattern.brackets, List.foldl_append]
  | one _ ih =>
      simp only [Pattern.steady, Bool.and_eq_true, List.isEmpty_iff, List.append_eq_nil_iff] at hp
      simp only [ih hp.1.1, Pattern.brackets, hp.2, List.append_nil]
  | other _ ih =>
      simp only [Pattern.steady, Bool.and_eq_true, List.isEmpty_iff, List.append_eq_nil_iff] at hp
      simp only [ih hp.1.2, Pattern.brackets, hp.2, List.append_nil]
  | last _ ih =>
      simp only [Pattern.steady, Bool.and_eq_true] at hp
      exact ih hp.1 bs
  | more _ _ ihp ih =>
      have hsteady := hp
      simp only [Pattern.steady, Bool.and_eq_true, List.isEmpty_iff] at hp
      rw [List.foldl_append, ihp hp.1, hp.2]
      exact ih hsteady bs

/-! ## Symbols -/

/-- The terminal that a symbol is. -/
def Symbol.terminal? : Symbol → Option Terminal
  | .t terminal => some terminal
  | .r _ => none

/-- Rules among some symbols leave nothing open. -/
theorem GeneratesAll.foldl_nest {ss : List Symbol} {w : List Terminal} (h : GeneratesAll ss w)
    (bs : List Terminal) : w.foldl nest bs = (ss.filterMap Symbol.terminal?).foldl nest bs := by
  induction h generalizing bs with
  | nil => rfl
  | @cons s ss v w hs _ ih =>
      rw [List.foldl_append, ih]
      cases s with
      | t terminal =>
          cases hs
          rfl
      | r rule =>
          have hv : v.foldl nest bs = bs := hs.foldl_nest rfl bs
          rw [hv]
          rfl

theorem GeneratesAll.unclosed_eq {ss : List Symbol} {w : List Terminal} (h : GeneratesAll ss w) :
    unclosed w = unclosed (ss.filterMap Symbol.terminal?) :=
  h.foldl_nest []

end Typeahead
