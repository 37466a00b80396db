import Typeahead.Proofs.Import.Shape
import Typeahead.Proofs.Parser.States

/-!
The parser's stacks before the end of the preamble. There are not many of them: at most a package header, the imports
so far, and what has been read of one more header. On each of them an import keyword is taken, or a missing name is put
in before it.
-/

namespace Typeahead.Automaton

open Recovery

variable {qs : List State} {ss : List Symbol}

/-! ## Stacks before the end of the preamble -/

/-- What can lie on a stack from a keyword to the end of its header, top first. -/
def underway (keyword : Terminal) : List (List Symbol) :=
  [[.t keyword],
   [.t .name, .t keyword],
   [.t .dot, .t .name, .t keyword],
   [.t .name, .t .dot, .t .name, .t keyword],
   [.r .nameTail, .t .name, .t keyword],
   [.t .dot, .r .nameTail, .t .name, .t keyword],
   [.t .name, .t .dot, .r .nameTail, .t .name, .t keyword],
   [.r .qualifiedName, .t keyword],
   [.t .semicolon, .r .qualifiedName, .t keyword],
   [.r .semi, .r .qualifiedName, .t keyword]]

/-- What can lie below an import. -/
def beneath : List (List Symbol) :=
  [[], [.r .importItems], [.r .packageHeader], [.r .importItems, .r .packageHeader]]

/-- The stacks on which an import may still come. -/
def openings : List (List Symbol) :=
  beneath ++ underway .kwPackage ++
    beneath.flatMap fun base => ([.r .importHeader] :: underway .kwImport).map (· ++ base)

/-- The stacks on which only the preamble is still to be put together. -/
def endings : List (List Symbol) :=
  [[.r .importList], [.r .importList, .r .packageHeader]]

/-- The states that some symbols lead to, top first. -/
def statesOf : List Symbol → Option (List State)
  | [] => some []
  | s :: ss => (statesOf ss).bind fun qs => ((row (top qs)).next? s).map (· :: qs)

theorem Spells.statesOf (h : Spells qs ss) : statesOf ss = some qs := by
  induction h with
  | nil => rfl
  | cons hq _ ih => simp [Automaton.statesOf, ih, hq]

/-- The symbols that lead on from a state. -/
def Row.symbols (r : Row) : List Symbol :=
  r.shifts.map (.t ·.1) ++ r.gotos.map (.r ·.1)

theorem mem_symbols {r : Row} {s : Symbol} {q : State} (h : r.next? s = some q) : s ∈ r.symbols := by
  cases s with
  | t a => exact List.mem_append_left _ (List.mem_map.mpr ⟨(a, q), mem_of_lookup h, rfl⟩)
  | r r => exact List.mem_append_right _ (List.mem_map.mpr ⟨(r, q), mem_of_lookup h, rfl⟩)

theorem cons_mem_openings : ∀ ss ∈ openings ++ endings, ∀ qs ∈ statesOf ss, ∀ s ∈ (row (top qs)).symbols,
    s :: ss ∈ openings ++ endings ∨ (ss = [] ∧ s ∈ [Symbol.r .preamble, .r .file]) := by
  decide +kernel

/-- A stack is one of these, or the preamble lies at its bottom, alone or as a part of the file. -/
theorem Spells.opening (h : Spells qs ss) :
    ss ∈ openings ++ endings ∨ ss.getLast? = some (.r .preamble) ∨ ss.getLast? = some (.r .file) := by
  induction h with
  | nil => exact .inl (by decide)
  | @cons q qs s ss hq hs ih =>
      rcases ih with ih | ih
      · rcases cons_mem_openings ss ih qs hs.statesOf s (mem_symbols hq) with hmem | ⟨rfl, hmem⟩
        · exact .inl hmem
        · right
          simpa using hmem
      · cases ss with
        | nil => simp at ih
        | cons s' ss => exact .inr (by simpa using ih)

theorem ne_of_mem_openings : ∀ ss ∈ openings ++ endings, ∀ s ∈ ss, s ≠ .r .preamble ∧ s ≠ .r .file := by
  decide

/-- The bodies that can stand for a symbol. -/
def bodies : Symbol → List (List Symbol)
  | .t _ => []
  | .r rule => rule.alternatives

/-- A reduction only leads to stacks on which an import may come from such stacks. -/
theorem body_mem_openings : ∀ ss ∈ openings, ∀ s ∈ ss.take 1, ∀ body ∈ bodies s,
    body.reverse ++ ss.drop 1 ∈ openings := by
  decide

theorem head?_of_mem_endings : ∀ ss ∈ endings, ss.head? = some (.r .importList) := by
  decide

/-- A preamble or a file comes before all else. -/
theorem start_of_goto : ∀ r ∈ numbered, ∀ rule ∈ [Rule.preamble, .file],
    (r.1.gotos.lookup rule).isSome → r.2 = start := by
  decide +kernel

theorem Spells.eq_nil_of_cons {s : Symbol} (h : Spells qs (s :: ss)) (hs : s ∈ [Symbol.r .preamble, .r .file]) :
    ss = [] := by
  cases h with
  | @cons q qs _ _ hq h =>
      have hlookup : ∃ rule ∈ [Rule.preamble, .file], ((row (top qs)).gotos.lookup rule).isSome := by
        simp only [List.mem_cons, List.not_mem_nil, or_false] at hs
        rcases hs with rfl | rfl
        · exact ⟨.preamble, by decide, by rw [← Row.next?_r, hq]; rfl⟩
        · exact ⟨.file, by decide, by rw [← Row.next?_r, hq]; rfl⟩
      obtain ⟨rule, hrule, hsome⟩ := hlookup
      have hnil := h.eq_nil_of_top (start_of_goto _ h.top_mem rule hrule hsome)
      exact List.length_eq_zero_iff.mp (by rw [← h.length_eq, hnil]; rfl)

theorem Spells.not_mem_of_mem_dropLast (h : Spells qs ss) :
    ∀ s ∈ ss.dropLast, s ∉ [Symbol.r .preamble, .r .file] := by
  induction h with
  | nil => exact List.forall_mem_nil _
  | @cons q qs s ss hq h ih =>
      cases ss with
      | nil => exact List.forall_mem_nil _
      | cons s' ss =>
          rw [List.dropLast_cons_cons]
          refine List.forall_mem_cons.mpr ⟨fun hs => ?_, ih⟩
          cases (Spells.cons hq h).eq_nil_of_cons hs

/-! ## Import keywords -/

/-- An import keyword is taken, if need be after a missing name. -/
theorem takes_import : ∀ ss ∈ openings, ∀ qs ∈ statesOf ss,
    accepts qs .kwImport ∨ (insertion? (settled (.token .kwImport) qs) (some .kwImport)).isSome := by
  decide +kernel

/-- After an import keyword nothing is complete, and only a name can come. -/
theorem after_import : ∀ r ∈ rows, r.symbol = some (.t .kwImport) →
    r.complete = none ∧ ∀ e ∈ r.shifts, e.1 = .name := by
  decide +kernel

/-- After the list of imports nothing can come. -/
theorem after_importList : ∀ r ∈ rows, r.symbol = some (.r .importList) → r.shifts = [] := by
  decide +kernel

theorem steady_of_mem_openings : ∀ ss ∈ openings ++ endings, ∀ s ∈ ss, s.spliced → s ∈ Shaped.steady := by
  decide

/-- What can lie above a repeated part: nothing but the end of a name, or an import from its keyword on. -/
theorem above_steady : ∀ ss ∈ openings ++ endings, ∀ n ∈ List.range ss.length, ss[n]? ∈ Shaped.steady.map some →
    ((∀ s ∈ ss.take n, s ∈ [Symbol.t .dot, .t .name]) ∧ (ss.take n).count (.t .name) ≤ 1) ∨
    (ss.take n).getLast? ∈ [some (Symbol.t .kwImport), some (.r .importHeader)] ∧
      ∀ s ∈ (ss.take n).dropLast, s ∈ Shaped.plain := by
  decide

end Typeahead.Automaton
