import Mathlib.Tactic.MkIffOfInductiveProp
import Typeahead.Automaton

/-!
What is checked on the table, row by row. How stacks follow the automaton, what they accept and which
reductions are noticed rests on these facts, and not on the rows themselves.
-/

namespace Typeahead.Automaton

/-- The state that a symbol leads to. -/
def Row.next? (r : Row) : Symbol → Option State
  | .t t => r.shifts.lookup t
  | .r rule => r.gotos.lookup rule

@[simp] theorem Row.next?_t (r : Row) (t : Terminal) : r.next? (.t t) = r.shifts.lookup t := rfl

@[simp] theorem Row.next?_r (r : Row) (rule : Rule) : r.next? (.r rule) = r.gotos.lookup rule := rfl

/-- The rows with the states they belong to. -/
def numbered : List (Row × State) := rows.zipIdx

theorem row_eq (q : State) : row q = (rows[q]?).getD {} := by
  unfold row table
  rw [List.getElem?_toArray]

/-! ## The start and the end -/

theorem symbol_start : (row start).symbol = none := by
  rw [row_eq]
  rfl

/-- A file leads from the start to the end. -/
theorem next?_start : (row start).next? (.r .file) = some accepting := by
  rw [row_eq]
  rfl

theorem complete_accepting : (row accepting).complete = none := by
  rw [row_eq]
  rfl

/-! ## Single rows -/

/-- Terminals that show whether what is on top can still be an operand, or a branch before an `else`. -/
def decisive : List Terminal := [.kwElse, .dot, .disj, .conj, .eqeq, .le, .add, .mult]

/-- What holds of the row of a state. -/
@[mk_iff]
structure Row.Regular (r : Row) (q : State) : Prop where
  /-- A terminal enters a state by that state's own symbol. -/
  symbol_of_shift : ∀ e ∈ r.shifts, (rows[e.2]?).bind Row.symbol = some (.t e.1)
  /-- So does a rule. -/
  symbol_of_goto : ∀ e ∈ r.gotos, (rows[e.2]?).bind Row.symbol = some (.r e.1)
  visible : ∀ e ∈ r.shifts, e.1.hidden = false
  file_from_start : (r.gotos.lookup .file).isSome → q = start
  /-- Where a file is complete, it can also go on. -/
  shifts_of_file : ∀ p ∈ r.complete, p.rule = .file → r.shifts ≠ []
  complete_of_shifts_nil : r.shifts = [] → q ≠ accepting → r.complete.isSome
  /-- Where a production is complete and something can be shifted, it is something that cannot follow
  the rule, or something decisive, or the label of a jump. -/
  noticed : r.shifts ≠ [] → ∀ p ∈ r.complete,
    (∃ e ∈ r.shifts, e.1 ∉ p.rule.follow) ∨
    (p.rule ≠ .nameTail ∧ ∃ e ∈ r.shifts, e.1 ∈ decisive) ∨
    (∃ q ∈ r.shifts.lookup .name, ¬ offers q (.token .equal))

instance (r : Row) (q : State) : Decidable (r.Regular q) :=
  decidable_of_iff' _ (Row.regular_iff r q)

theorem regular_of_mem : ∀ q ∈ numbered, q.1.Regular q.2 := by
  decide +kernel

/-- The rule that a symbol is. -/
def rule? : Symbol → Option Rule
  | .t _ => none
  | .r rule => some rule

/-- What holds of a row entered by a rule: it offers only what can follow the rule. -/
@[mk_iff]
structure Row.Follows (r : Row) (rule : Rule) : Prop where
  mem_follow : ∀ e ∈ r.shifts, e.1 ∈ rule.follow
  follow_subset : ∀ p ∈ r.complete, p.rule.follow ⊆ rule.follow
  endsFile : ∀ p ∈ r.complete, p.rule.endsFile → rule.endsFile
  ne_nameTail : ∀ p ∈ r.complete, p.rule ≠ .nameTail
  /-- A name after a rule begins a statement, which can be an assignment. -/
  equal_of_name : ∀ e ∈ r.shifts, e.1 = .name → (shift? e.2 .equal).isSome
  /-- A rule that goes on with something decisive can be completed before anything that can follow it. -/
  complete_of_decisive : rule ≠ .nameTail → ∀ u ∈ decisive,
    (r.shifts.lookup u).isSome ∨ (∃ p ∈ r.complete, u ∈ p.rule.follow) →
      ∃ p ∈ r.complete, rule.follow ⊆ p.rule.follow

instance (r : Row) (rule : Rule) : Decidable (r.Follows rule) :=
  decidable_of_iff' _ (Row.follows_iff r rule)

theorem follows_of_mem : ∀ r ∈ rows, ∀ rule ∈ r.symbol.bind rule?, r.Follows rule := by
  decide +kernel

/-! ## Productions -/

/-- What the building of trees asks of a production: a spliced rule is never empty, and a part that may take
the place of the whole is not spliced itself. -/
@[mk_iff]
structure Splices (p : Production) : Prop where
  ne_nil : p.rule.spliced → p.body ≠ []
  whole : p.rule.collapses → ∀ s ∈ p.body, p.body = [s] → s.spliced = false

instance (p : Production) : Decidable (Splices p) :=
  decidable_of_iff' _ (splices_iff p)

theorem splices_of_complete : ∀ r ∈ rows, ∀ p ∈ r.complete, Splices p := by
  decide +kernel

/-! ## Ways back -/

/-- The states from which a symbol leads to one of the given ones. -/
def sources (s : Symbol) (targets : List State) : List (Row × State) :=
  match s with
  | .t t => (numbered.filter fun q => !q.1.shifts.isEmpty).filter fun q =>
      (q.1.shifts.lookup t).any targets.contains
  | .r r => (numbered.filter fun q => !q.1.gotos.isEmpty).filter fun q =>
      (q.1.gotos.lookup r).any targets.contains

/-- Whether every way back from some states spells the given symbols, last one first, and ends where
the rule can be put. -/
def spelledBack (r : Rule) : List Symbol → List (Row × State) → Bool
  | [], qs => qs.all fun q => (q.1.gotos.lookup r).isSome
  | s :: ss, qs =>
    qs.all (fun q => q.1.symbol == some s) && spelledBack r ss (sources s (qs.map Prod.snd))

/-- Every way back from a state that completes a production spells its body. -/
theorem spelledBack_of_complete : ∀ q ∈ numbered, ∀ p ∈ q.1.complete,
    spelledBack p.rule p.body.reverse [q] := by
  decide +kernel

end Typeahead.Automaton
