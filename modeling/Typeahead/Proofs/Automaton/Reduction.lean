import Typeahead.Proofs.Automaton.Stack

/-!
Reductions on stacks that follow the automaton: each leaves such a stack, and before any lookahead they
come to an end within the bound that is set for them.
-/

namespace Typeahead.Automaton

variable {q : State} {qs qs' qs'' : List State} {ss : List Symbol} {a : Lookahead} {t : Terminal}
  {p : Production} {ps : List Production}

/-! ## One reduction -/

theorem complete?_eq_some : complete? q a = some p ↔
    (row q).complete = some p ∧ p.rule.admits a ∧ ∀ t, a = .token t → shift? q t = none := by
  cases a with
  | token t =>
      cases hs : shift? q t <;>
        simp [complete?, hs, Option.filter_eq_some_iff, and_comm]
  | finish => simp [complete?, Option.filter_eq_some_iff]

theorem reduce?_eq_some : reduce? qs a = some (p, qs') ↔ complete? (top qs) a = some p ∧
    ∃ q, goto? (top (qs.drop p.body.length)) p.rule = some q ∧ qs' = q :: qs.drop p.body.length := by
  unfold reduce?
  cases hc : complete? (top qs) a with
  | none => simp
  | some p' =>
      simp only [Option.map_eq_some_iff, Prod.mk.injEq, Option.some.injEq]
      constructor
      · rintro ⟨q, hq, rfl, rfl⟩
        exact ⟨rfl, q, hq, rfl⟩
      · rintro ⟨rfl, q, hq, rfl⟩
        exact ⟨q, hq, rfl, rfl⟩

theorem complete_of_reduce? (h : reduce? qs a = some (p, qs')) : (row (top qs)).complete = some p :=
  (complete?_eq_some.mp (reduce?_eq_some.mp h).1).1

/-- A reduction replaces the symbols of a body by its rule. -/
theorem Spells.reduce? (h : Spells qs ss) (hr : reduce? qs a = some (p, qs')) :
    ∃ rest, ss = p.body.reverse ++ rest ∧ Spells qs' (.r p.rule :: rest) := by
  obtain ⟨hc, q, hq, rfl⟩ := reduce?_eq_some.mp hr
  obtain ⟨rest, _, hss, hrest, _⟩ := h.of_complete (complete?_eq_some.mp hc).1
  exact ⟨rest, hss, .cons hq hrest⟩

/-- A production that is complete and admits the lookahead is reduced, unless a token is shifted. -/
theorem Spells.exists_reduce? (h : Spells qs ss) (hc : complete? (top qs) a = some p) :
    ∃ qs', Automaton.reduce? qs a = some (p, qs') := by
  obtain ⟨_, q, _, _, hq⟩ := h.of_complete (complete?_eq_some.mp hc).1
  exact ⟨_, reduce?_eq_some.mpr ⟨hc, q, hq, rfl⟩⟩

theorem Spells.shift? (h : Spells qs ss) (hq : shift? (top qs) t = some q) :
    Spells (q :: qs) (.t t :: ss) :=
  .cons hq h

/-! ## How long reductions can go on -/

/-- A bound on the reductions that a symbol on top can still cause before the stack gets shorter:
the tighter a rule binds, the more rules it can turn out to be. -/
def weight : Symbol → Nat
  | .t _ => 14
  | .r .parenthesized | .r .identifier | .r .literal | .r .stringLiteral | .r .ifExpression => 13
  | .r .primary => 12
  | .r .postfixUnary => 11
  | .r .prefixUnary => 10
  | .r .multiplicative => 9
  | .r .additive => 8
  | .r .comparison => 7
  | .r .equality => 6
  | .r .conjunction | .r .importHeader => 5
  | .r .disjunction | .r .classDeclaration | .r .functionDeclaration | .r .propertyDeclaration
  | .r .importItems => 4
  | .r .expression | .r .declaration | .r .assignment | .r .forStatement | .r .whileStatement
  | .r .jump | .r .importList | .r .callSuffix | .r .navigationSuffix => 3
  | .r .statement | .r .topLevelObject | .r .classMember | .r .block | .r .preamble
  | .r .postfixSuffix => 2
  | .r _ => 1

/-- An empty list of imports can be recognised at the start and after the package header. -/
def allowance : Option Symbol → Nat
  | none | some (.r .packageHeader) => 5
  | _ => 0

/-- The weight of some symbols together. -/
def weights : List Symbol → Nat
  | [] => 0
  | s :: ss => weight s + weights ss

/-- A bound on the reductions that can be made on a stack before one lookahead. -/
def potential (ss : List Symbol) : Nat :=
  weights ss + allowance ss.head?

theorem weights_append (ss ss' : List Symbol) : weights (ss ++ ss') = weights ss + weights ss' := by
  induction ss with
  | nil => simp [weights]
  | cons s ss ih => simp [weights, ih, Nat.add_assoc]

theorem weights_reverse (ss : List Symbol) : weights ss.reverse = weights ss := by
  induction ss with
  | nil => rfl
  | cons s ss ih => simp [weights_append, weights, ih, Nat.add_comm]

theorem weight_le (s : Symbol) : weight s ≤ 16 := by
  cases s with
  | t t => simp [weight]
  | r r => cases r <;> decide

theorem weights_le (ss : List Symbol) : weights ss ≤ 16 * ss.length := by
  induction ss with
  | nil => simp [weights]
  | cons s ss ih =>
      have hs := weight_le s
      simp only [weights, List.length_cons]
      omega

theorem allowance_le (s : Option Symbol) : allowance s ≤ 16 := by
  unfold allowance
  split <;> omega

theorem weight_of_complete : ∀ r ∈ rows, ∀ p ∈ r.complete,
    weight (.r p.rule) + allowance (some (.r p.rule)) < weights p.body + allowance r.symbol := by
  decide +kernel

theorem potential_le (h : Spells qs ss) : potential ss ≤ reductionBound qs := by
  have hw := weights_le ss
  have ha := allowance_le ss.head?
  rw [reductionBound, h.length_eq, potential]
  omega

theorem Spells.potential_lt {rest : List Symbol} (h : Spells qs (p.body.reverse ++ rest))
    (hp : (row (top qs)).complete = some p) :
    potential (.r p.rule :: rest) < potential (p.body.reverse ++ rest) := by
  have hw := weight_of_complete _ (row_mem h.top_lt) p hp
  rw [h.symbol_top] at hw
  simp only [potential, weights_append, weights_reverse, weights, List.head?_cons]
  omega

/-! ## All reductions before a lookahead -/

/-- The reductions before a lookahead, to their end. -/
inductive Settles (a : Lookahead) : List State → List Production → List State → Prop
  | done {qs : List State} : Automaton.reduce? qs a = none → Settles a qs [] qs
  | step {qs qs' qs'' : List State} {p : Production} {ps : List Production} :
      Automaton.reduce? qs a = some (p, qs') → Settles a qs' ps qs'' → Settles a qs (p :: ps) qs''

theorem settles_reduceUpTo {n : Nat} (h : Spells qs ss) (hn : potential ss ≤ n) :
    Settles a qs (reduceUpTo a n qs).1 (reduceUpTo a n qs).2 := by
  induction n generalizing qs ss with
  | zero =>
      cases hr : Automaton.reduce? qs a with
      | none => exact .done hr
      | some r =>
          obtain ⟨rest, rfl, _⟩ := h.reduce? hr
          have hlt := h.potential_lt (complete_of_reduce? hr)
          omega
  | succ n ih =>
      cases hr : Automaton.reduce? qs a with
      | none => simpa [reduceUpTo, hr] using Settles.done hr
      | some r =>
          obtain ⟨rest, rfl, hqs'⟩ := h.reduce? hr
          have hlt := h.potential_lt (complete_of_reduce? hr)
          simpa [reduceUpTo, hr] using Settles.step hr (ih hqs' (by omega))

/-- The bound on reductions is never what stops them. -/
theorem Spells.settles (h : Spells qs ss) (a : Lookahead) :
    Settles a qs (reductions a qs) (settled a qs) :=
  settles_reduceUpTo h (potential_le h)

namespace Settles

theorem reduce?_eq_none (h : Settles a qs ps qs') : Automaton.reduce? qs' a = none := by
  induction h with
  | done hr => exact hr
  | step _ _ ih => exact ih

theorem unique {ps' : List Production} (h : Settles a qs ps qs') (h' : Settles a qs ps' qs'') :
    ps' = ps ∧ qs'' = qs' := by
  induction h generalizing ps' with
  | done hr =>
      cases h' with
      | done _ => exact ⟨rfl, rfl⟩
      | step hr' _ => rw [hr] at hr'; cases hr'
  | step hr _ ih =>
      cases h' with
      | done hr' => rw [hr] at hr'; cases hr'
      | step hr' h' =>
          rw [hr] at hr'
          cases hr'
          obtain ⟨rfl, rfl⟩ := ih h'
          exact ⟨rfl, rfl⟩

/-- What holds of a stack and some data, and is kept by each reduction, holds at the end. -/
theorem foldl {α : Type} {f : α → Production → α} {M : List State → α → Prop}
    (hstep : ∀ {qs qs' p x}, Automaton.reduce? qs a = some (p, qs') → M qs x → M qs' (f x p))
    (h : Settles a qs ps qs') {x : α} (hx : M qs x) : M qs' (ps.foldl f x) := by
  induction h generalizing x with
  | done _ => exact hx
  | step hr _ ih => exact ih (hstep hr hx)

theorem preserves {M : List State → Prop}
    (hstep : ∀ {qs qs' p}, Automaton.reduce? qs a = some (p, qs') → M qs → M qs')
    (h : Settles a qs ps qs') (hm : M qs) : M qs' := by
  induction h with
  | done _ => exact hm
  | step hr _ ih => exact ih (hstep hr hm)

theorem spells (h : Settles a qs ps qs') (hs : Spells qs ss) : ∃ ss', Spells qs' ss' := by
  refine h.preserves (M := fun qs => ∃ ss, Spells qs ss) ?_ ⟨ss, hs⟩
  rintro qs qs' p hr ⟨ss, hs⟩
  obtain ⟨_, _, hs'⟩ := hs.reduce? hr
  exact ⟨_, hs'⟩

end Settles

theorem Spells.settled_eq (h : Spells qs ss) (hs : Settles a qs ps qs') : settled a qs = qs' :=
  (hs.unique (h.settles a)).2

theorem Spells.settled_of_reduce? (h : Spells qs ss) (hr : Automaton.reduce? qs a = some (p, qs')) :
    settled a qs = settled a qs' := by
  obtain ⟨_, _, h'⟩ := h.reduce? hr
  exact h.settled_eq (.step hr (h'.settles a))

theorem Spells.settled_of_none (h : Spells qs ss) (hr : Automaton.reduce? qs a = none) :
    settled a qs = qs :=
  h.settled_eq (.done hr)

theorem Spells.settled_settled (h : Spells qs ss) (a : Lookahead) : settled a (settled a qs) = settled a qs := by
  obtain ⟨_, hs⟩ := (h.settles a).spells h
  exact hs.settled_of_none (h.settles a).reduce?_eq_none

end Typeahead.Automaton
