import Typeahead.Proofs.Grammar.Brackets
import Typeahead.Proofs.Parser.States

/-!
How what is open gets closed. In every state where no text can end, the first terminal that is tried leads on
towards the end of something, or closes a bracket; and before a closing bracket stands what it closes.
-/

namespace Typeahead.Automaton

open Recovery

variable {q : State} {qs qs' : List State} {ss : List Symbol} {a : Lookahead} {t o : Terminal}
  {p : Production}

/-! ## What is left to insert -/

/-- Whether something ends in a state: a body, or what stands between brackets. -/
def Row.ends (r : Row) : Bool :=
  r.complete.isSome || (r.shifts.lookup .rpar).isSome || (r.shifts.lookup .rbrace).isSome

/-- What an insertion adds to those that are needed: itself, and two more if its bracket has to be closed. -/
def price (t : Terminal) : Nat :=
  if t.opens then 3 else 1

/-- The price of the terminals that are inserted one after another until something ends, of `n` at most. -/
def owedWithin : Nat → State → Nat
  | 0, _ => 0
  | n + 1, q =>
    if (row q).ends then 0
    else match (candidates q).head? with
      | none => 0
      | some t =>
        match shift? q t with
        | none => 0
        | some q' => price t + owedWithin n q'

/-- What is owed in a state. No state owes more than six. -/
def owed (q : State) : Nat :=
  owedWithin 6 q

/-- Whether a bracket is taken in a state, at once or after a rule that no text can end with. -/
def Row.Closes (r : Row) (t : Terminal) : Prop :=
  (r.shifts.lookup t).isSome ∨ ∃ p ∈ r.complete, t ∈ p.rule.follow ∧ p.rule.endsFile = false

instance (r : Row) (t : Terminal) : Decidable (r.Closes t) :=
  inferInstanceAs (Decidable (_ ∨ _))

/-- What holds of the row of a state when a text ends there. -/
@[mk_iff]
structure Row.Finishable (r : Row) (q : State) : Prop where
  owed_le : owed q ≤ 6
  owed_of_rule : ∀ rule ∈ r.symbol.bind rule?, owed q = 0
  owed_of_closing : ∀ t ∈ r.symbol.bind Symbol.terminal?, t.opening?.isSome → owed q ≤ 1
  closes_of_rule : ∀ rule ∈ r.symbol.bind rule?, rule.endsFile = false →
    ∀ t ∈ rule.follow, t.opening?.isSome → r.Closes t
  /-- Where no text can end, the first candidate gets on with what is owed, or closes a bracket. -/
  insertion : q ≠ accepting → complete? q .finish = none → ∃ t ∈ (candidates q).head?,
    (∃ q' ∈ shift? q t, price t + owed q' ≤ owed q) ∨ (t.opening?.isSome ∧ r.Closes t)

instance (r : Row) (q : State) : Decidable (r.Finishable q) :=
  decidable_of_iff' _ (Row.finishable_iff r q)

theorem finishable_of_mem : ∀ q ∈ numbered, q.1.Finishable q.2 := by
  decide +kernel

/-- Every way back from a closing bracket spells the front of a body, in which only the bracket that it
closes is open. -/
theorem spelledBack_of_closing : ∀ q ∈ numbered, ∀ t ∈ q.1.symbol.bind Symbol.terminal?,
    ∀ o ∈ t.opening?, ∃ p ∈ rows.filterMap Row.complete,
      let front := p.body.takeWhile (· != .t t)
      (front.filterMap Symbol.terminal?).filter Terminal.isBracket = [o] ∧
        spelledBack p.rule (.t t :: front.reverse) [q] := by
  decide +kernel

/-! ## Stacks -/

theorem finishable_row (h : q < rows.length) : (row q).Finishable q :=
  finishable_of_mem _ (mem_numbered h)

theorem owed_of_reduce? (h : reduce? qs a = some (p, qs')) : owed (top qs') = 0 := by
  obtain ⟨_, q, hq, rfl⟩ := reduce?_eq_some.mp h
  have hs : (row q).symbol = some (.r p.rule) := symbol_of_next? hq
  exact (finishable_row (lt_of_symbol hs)).owed_of_rule p.rule (by rw [hs]; rfl)

/-- Reductions add nothing to what is owed. -/
theorem Spells.owed_settled (h : Spells qs ss) (a : Lookahead) :
    owed (top (Automaton.settled a qs)) ≤ owed (top qs) := by
  refine (h.settles a).preserves (M := fun qs' => owed (top qs') ≤ owed (top qs)) ?_ (Nat.le_refl _)
  intro qs₁ qs₂ p hr _
  rw [owed_of_reduce? hr]
  exact Nat.zero_le _

/-- A bracket that a state can close is taken: it can still be closed after each reduction before it. -/
theorem Spells.accepts_of_closes (h : Spells qs ss) (ht : t.opening?.isSome)
    (hc : (row (top qs)).Closes t) : accepts qs t := by
  -- Each reduction lowers the potential, so the bracket is shifted in the end.
  induction hn : potential ss using Nat.strongRecOn generalizing qs ss with
  | ind n ih =>
      cases hq : Automaton.shift? (top qs) t with
      | some q => simp [accepts, h.feed?_of_shift? hq]
      | none =>
          rcases hc with hs | ⟨p, hp, hfollow, hends⟩
          · rw [← Automaton.shift?, hq] at hs
            cases hs
          · have hcomplete : complete? (top qs) (.token t) = some p :=
              complete?_eq_some.mpr ⟨hp, by simpa [Rule.admits] using hfollow, by rintro _ ⟨⟩; exact hq⟩
            obtain ⟨qs', hr⟩ := h.exists_reduce? hcomplete
            obtain ⟨rest, rfl, h'⟩ := h.reduce? hr
            have hc' := (finishable_row h'.top_lt).closes_of_rule p.rule
              (by rw [h'.symbol_top]; rfl) hends t hfollow ht
            rw [accepts, h.feed?_of_reduce? hr]
            exact ih _ (hn ▸ h.potential_lt hp) h' hc' rfl

/-- Between a closing bracket and the one that it closes, nothing else is open. -/
theorem Spells.front_of_closing (h : Spells qs (.t t :: ss)) (ht : t.opening? = some o) :
    ∃ front rest : List Symbol, ss = front.reverse ++ rest ∧
      (front.filterMap Symbol.terminal?).filter Terminal.isBracket = [o] := by
  have hsymbol : t ∈ (row (top qs)).symbol.bind Symbol.terminal? := by
    rw [h.symbol_top]
    rfl
  obtain ⟨p, _, hfront, hback⟩ := spelledBack_of_closing _ h.top_mem t hsymbol o ht
  obtain ⟨⟨rest, hss⟩, _⟩ := h.of_spelledBack hback (List.mem_singleton.mpr rfl)
  rw [List.cons_append, List.cons_inj_right] at hss
  exact ⟨_, rest, hss.symm, hfront⟩

/-- The first candidate is inserted if it is taken. -/
theorem insertion?_of_head? (h : (candidates (top qs)).head? = some t) (ht : accepts qs t) :
    insertion? qs none = some t := by
  obtain ⟨ts, hts⟩ := List.head?_eq_some_iff.mp h
  rw [insertion?, hts, List.find?_cons_of_pos (fits_none.mpr ht)]

end Typeahead.Automaton
