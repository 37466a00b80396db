import Typeahead.Proofs.Automaton.Reduction

/-!
What a stack accepts. A rule on top of a stack is never offered more than can follow it, so a state that
can only reduce accepts what the stack after the reduction accepts; and no stack but that of a whole file
is a dead end.
-/

namespace Typeahead.Automaton

variable {q : State} {qs qs' : List State} {ss : List Symbol} {a : Lookahead} {t : Terminal}
  {p : Production}

/-! ## Feeding a terminal -/

theorem feed?_eq_some : feed? qs t = some qs' ↔
    ∃ q, shift? (top (settled (.token t) qs)) t = some q ∧ qs' = q :: settled (.token t) qs := by
  simp only [feed?, Option.map_eq_some_iff, eq_comm (a := qs')]

theorem Spells.settled (h : Spells qs ss) (a : Lookahead) : ∃ ss', Spells (settled a qs) ss' :=
  (h.settles a).spells h

theorem Spells.feed? (h : Spells qs ss) (hf : feed? qs t = some qs') : ∃ ss', Spells qs' ss' := by
  obtain ⟨q, hq, rfl⟩ := feed?_eq_some.mp hf
  obtain ⟨ss', hs⟩ := h.settled (.token t)
  exact ⟨_, hs.shift? hq⟩

theorem reduce?_of_shift? (hq : shift? (top qs) t = some q) : reduce? qs (.token t) = none := by
  have hc : complete? (top qs) (.token t) = none := by simp [complete?, hq]
  simp [reduce?, hc]

/-- A terminal that can be shifted is shifted at once. -/
theorem Spells.feed?_of_shift? (h : Spells qs ss) (hq : Automaton.shift? (top qs) t = some q) :
    Automaton.feed? qs t = some (q :: qs) := by
  have hs := h.settled_of_none (reduce?_of_shift? hq)
  exact feed?_eq_some.mpr ⟨q, by rw [hs, hq], by rw [hs]⟩

/-- A reduction before a terminal makes no difference to it. -/
theorem Spells.feed?_of_reduce? (h : Spells qs ss)
    (hr : Automaton.reduce? qs (.token t) = some (p, qs')) :
    Automaton.feed? qs t = Automaton.feed? qs' t := by
  simp only [Automaton.feed?, h.settled_of_reduce? hr]

theorem Spells.offers_of_accepts (h : Spells qs ss) (ht : accepts qs t) :
    offers (top qs) (.token t) := by
  cases hr : Automaton.reduce? qs (.token t) with
  | none =>
      obtain ⟨qs', hf⟩ := Option.isSome_iff_exists.mp ht
      obtain ⟨q, hq, _⟩ := feed?_eq_some.mp hf
      rw [h.settled_of_none hr] at hq
      simp [offers, hq]
  | some r =>
      have hc := (reduce?_eq_some.mp hr).1
      simp [offers, hc]

/-! ## What can follow a rule -/

theorem Spells.admits_of_offers {rule : Rule} (h : Spells qs (.r rule :: ss))
    (ha : offers (top qs) a) : rule.admits a := by
  cases a with
  | token t =>
      simp only [offers, Bool.or_eq_true] at ha
      rcases ha with hq | hp
      · obtain ⟨q, hq⟩ := Option.isSome_iff_exists.mp hq
        have ht := h.follows.mem_follow _ (mem_shifts hq)
        simpa [Rule.admits] using ht
      · obtain ⟨p, hp⟩ := Option.isSome_iff_exists.mp hp
        obtain ⟨hp, ht, _⟩ := complete?_eq_some.mp hp
        simp only [Rule.admits, List.contains_iff_mem] at ht ⊢
        exact h.follows.follow_subset p hp ht
  | finish =>
      simp only [offers] at ha
      obtain ⟨p, hp⟩ := Option.isSome_iff_exists.mp ha
      obtain ⟨hp, ht, _⟩ := complete?_eq_some.mp hp
      exact h.follows.endsFile p hp ht

theorem Spells.settled_of_not_offers (h : Spells qs ss) (ha : ¬ offers (top qs) a) :
    Automaton.settled a qs = qs := by
  refine h.settled_of_none ?_
  cases hr : Automaton.reduce? qs a with
  | none => rfl
  | some r =>
      have hc := (reduce?_eq_some.mp hr).1
      cases a <;> simp [offers, hc] at ha

theorem Spells.feed?_of_not_offers (h : Spells qs ss) (ha : ¬ offers (top qs) (.token t)) :
    Automaton.feed? qs t = none := by
  cases hf : Automaton.feed? qs t with
  | none => rfl
  | some qs' => exact absurd (h.offers_of_accepts (by simp [accepts, hf])) ha

/-! ## Forced reductions -/

/-- A reduction made where nothing can be shifted. -/
def Forced (qs qs' : List State) : Prop :=
  (row (top qs)).shifts = [] ∧ ∃ p q, (row (top qs)).complete = some p ∧
    goto? (top (qs.drop p.body.length)) p.rule = some q ∧ qs' = q :: qs.drop p.body.length

theorem offers_of_shifts_nil (hn : (row q).shifts = []) (hp : (row q).complete = some p) :
    offers q a ↔ p.rule.admits a := by
  cases a with
  | token t => simp [offers, complete?, shift?, hn, hp]
  | finish => simp [offers, complete?, hp]

/-- Before a lookahead, a forced reduction is either made anyway, or else neither stack has anything to
do with the lookahead. -/
theorem Forced.cases (h : Forced qs qs') (hs : Spells qs ss) :
    (∃ ss', Spells qs' ss') ∧ ∀ a, (∃ p, reduce? qs a = some (p, qs')) ∨
      (¬ offers (top qs) a ∧ ¬ offers (top qs') a) := by
  obtain ⟨hn, p, q, hp, hq, rfl⟩ := h
  obtain ⟨rest, _, _, hrest, _⟩ := hs.of_complete hp
  have hs' : Spells (q :: qs.drop p.body.length) (.r p.rule :: rest) := .cons hq hrest
  refine ⟨⟨_, hs'⟩, fun a => ?_⟩
  by_cases ha : p.rule.admits a
  · have hc : complete? (top qs) a = some p :=
      complete?_eq_some.mpr ⟨hp, ha, fun t _ => by simp [shift?, hn]⟩
    exact .inl ⟨p, reduce?_eq_some.mpr ⟨hc, q, hq, rfl⟩⟩
  · refine .inr ⟨?_, fun ho => ha (hs'.admits_of_offers ho)⟩
    rwa [offers_of_shifts_nil hn hp]

/-- After a forced reduction the same terminals are taken as before it, with the same result. -/
theorem Forced.feed?_eq (h : Forced qs qs') (hs : Spells qs ss) (t : Terminal) :
    feed? qs t = feed? qs' t := by
  obtain ⟨⟨_, hs'⟩, hc⟩ := h.cases hs
  rcases hc (.token t) with ⟨p, hr⟩ | ⟨ho, ho'⟩
  · exact hs.feed?_of_reduce? hr
  · rw [hs.feed?_of_not_offers ho, hs'.feed?_of_not_offers ho']

/-! ## No dead ends -/

/-- A stack that ends in the end holds a file and nothing else. -/
theorem Spells.eq_of_accepting (h : Spells qs ss) (ht : top qs = accepting) :
    qs = [accepting] ∧ ss = [.r .file] := by
  cases h with
  | nil => cases ht
  | cons hq h' =>
      rw [top_cons] at ht
      subst ht
      have hs := symbol_of_next? hq
      rw [symbol_accepting] at hs
      cases hs
      rw [Row.next?_r] at hq
      have htop := h'.regular.file_from_start (Option.isSome_of_mem hq)
      obtain rfl := h'.eq_nil_of_top htop
      cases h'
      exact ⟨rfl, rfl⟩

/-- No stack but that of a whole file is a dead end. -/
theorem Spells.exists_accepts (h : Spells qs ss) (hq : top qs ≠ accepting) :
    ∃ t, accepts qs t := by
  induction hn : potential ss using Nat.strongRecOn generalizing qs ss with
  | ind n ih =>
      cases hs : (row (top qs)).shifts with
      | cons e es =>
          have hq : Automaton.shift? (top qs) e.1 = some e.2 := by
            obtain ⟨t, q'⟩ := e
            simp [Automaton.shift?, hs]
          exact ⟨e.1, by simp [accepts, h.feed?_of_shift? hq]⟩
      | nil =>
          obtain ⟨p, hp⟩ := Option.isSome_iff_exists.mp
            (h.regular.complete_of_shifts_nil hs hq)
          obtain ⟨rest, q, rfl, hrest, hg⟩ := h.of_complete hp
          have hs' : Spells (q :: qs.drop p.body.length) (.r p.rule :: rest) := .cons hg hrest
          have hf : Forced qs (q :: qs.drop p.body.length) := ⟨hs, p, q, hp, hg, rfl⟩
          have hne : q ≠ accepting := by
            rintro rfl
            have hr := hs'.symbol_top
            rw [top_cons, symbol_accepting] at hr
            have hfile : p.rule = .file := by simpa using hr.symm
            exact h.regular.shifts_of_file p hp hfile hs
          have hlt : potential (.r p.rule :: rest) < n := hn ▸ h.potential_lt hp
          obtain ⟨t, ht⟩ := ih _ hlt hs' hne rfl
          exact ⟨t, by rwa [accepts, hf.feed?_eq h]⟩

end Typeahead.Automaton
