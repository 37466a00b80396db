import Typeahead.Proofs.Automaton.Acceptance

/-!
Reductions that are noticed. The reductions made before a refused terminal stay. What follows can tell
them from no reductions exactly if one of them was made where something could have been shifted.
-/

namespace Typeahead.Automaton

variable {q : State} {qs qs' : List State} {ss : List Symbol} {a : Lookahead} {t u : Terminal}
  {p : Production} {ps : List Production} {r : Rule}

/-! ## Terminals taken one after another -/

/-- The states after some terminals; `none` if one of them is refused. -/
def feedAll? (qs : List State) (us : List Terminal) : Option (List State) :=
  us.foldlM feed? qs

@[simp] theorem feedAll?_nil (qs : List State) : feedAll? qs [] = some qs := rfl

@[simp] theorem feedAll?_cons (qs : List State) (u : Terminal) (us : List Terminal) :
    feedAll? qs (u :: us) = (feed? qs u).bind (feedAll? · us) := rfl

/-- Whether some terminals are taken as they come. -/
def reads (qs : List State) (us : List Terminal) : Bool :=
  (feedAll? qs us).isSome

theorem reads_single : reads qs [u] = accepts qs u := by
  cases h : feed? qs u <;> simp [reads, accepts, h]

theorem reads_cons_of_some {us : List Terminal} (h : feed? qs u = some qs') :
    reads qs (u :: us) = reads qs' us := by
  simp [reads, h]

/-- No hidden terminal is ever taken. -/
theorem visible_of_reads {us : List Terminal} (h : reads qs us) : ∀ u ∈ us, u.hidden = false := by
  induction us generalizing qs with
  | nil => simp
  | cons u us ih =>
      cases hf : feed? qs u with
      | none => simp [reads, hf] at h
      | some qs' =>
          obtain ⟨q, hq, _⟩ := feed?_eq_some.mp hf
          rw [reads_cons_of_some hf] at h
          rw [List.forall_mem_cons]
          exact ⟨(regular_row (lt_of_next? (s := .t u) hq)).visible _ (mem_shifts hq), ih h⟩

theorem Forced.reads_eq (h : Forced qs qs') (hs : Spells qs ss) (us : List Terminal) :
    reads qs us = reads qs' us := by
  cases us with
  | nil => rfl
  | cons u us => simp [reads, h.feed?_eq hs]

/-! ## Where reductions are made -/

/-- The states in which the reductions before a lookahead are made. -/
def reducedIn (a : Lookahead) (qs : List State) : List State :=
  (List.range (reductions a qs).length).map fun n => top (reduceUpTo a n qs).2

theorem Spells.reductions_eq (h : Spells qs ss) (hs : Settles a qs ps qs') : reductions a qs = ps :=
  (hs.unique (h.settles a)).1

theorem Spells.reducedIn_of_none (h : Spells qs ss) (hr : Automaton.reduce? qs a = none) :
    reducedIn a qs = [] := by
  simp [reducedIn, h.reductions_eq (.done hr)]

theorem Spells.reducedIn_of_reduce? (h : Spells qs ss)
    (hr : Automaton.reduce? qs a = some (p, qs')) :
    reducedIn a qs = top qs :: reducedIn a qs' := by
  obtain ⟨_, _, h'⟩ := h.reduce? hr
  have hps := h.reductions_eq (.step hr (h'.settles a))
  simp [reducedIn, hps, List.range_succ_eq_map, reduceUpTo, hr, Function.comp_def]

theorem Forced.of_reduce? (hr : reduce? qs a = some (p, qs')) (hn : (row (top qs)).shifts = []) :
    Forced qs qs' := by
  obtain ⟨_, q, hq, rfl⟩ := reduce?_eq_some.mp hr
  exact ⟨hn, p, q, complete_of_reduce? hr, hq, rfl⟩

/-! ## The rule on top -/

/-- As reductions go on, ever less can follow the rule on top. -/
theorem Settles.rule_on_top (hs : Settles (.token t) qs ps qs') (h : Spells qs (.r r :: ss))
    (ht : r.admits (.token t)) :
    ∃ r' ss', Spells qs' (.r r' :: ss') ∧ r'.admits (.token t) ∧ r'.follow ⊆ r.follow ∧
      (r' = r ∨ r' ≠ .nameTail) := by
  induction hs generalizing r ss with
  | done _ => exact ⟨r, ss, h, ht, fun _ hu => hu, .inl rfl⟩
  | step hr _ ih =>
      obtain ⟨rest, _, h'⟩ := h.reduce? hr
      have hp := complete_of_reduce? hr
      have hfollow := h.follows.follow_subset _ hp
      have hne := h.follows.ne_nameTail _ hp
      have ht' := (complete?_eq_some.mp (reduce?_eq_some.mp hr).1).2.1
      obtain ⟨r', ss', hr', hadm, hsub, htail⟩ := ih h' ht'
      refine ⟨r', ss', hr', hadm, fun _ hu => hfollow (hsub hu), .inr ?_⟩
      rcases htail with rfl | htail
      · exact hne
      · exact htail

/-! ## Noticing a reduction -/

theorem shift?_of_mem {e : Terminal × State} (he : e ∈ (row q).shifts) :
    ∃ q', shift? q e.1 = some q' := by
  refine Option.isSome_iff_exists.mp ?_
  unfold shift?
  rw [List.lookup_isSome_iff]
  exact ⟨e, he, by simp⟩

theorem Spells.mem_follow_of_accepts (h : Spells qs (.r r :: ss)) (hu : accepts qs u) :
    u ∈ r.follow := by
  simpa [Rule.admits] using h.admits_of_offers (h.offers_of_accepts hu)

/-- A stack that refuses what can follow the rule on top takes nothing decisive. -/
theorem Spells.not_accepts_of_decisive (h : Spells qs (.r r :: ss)) (hne : r ≠ .nameTail)
    (ht : r.admits (.token t)) (hr : Automaton.reduce? qs (.token t) = none)
    (hn : Automaton.shift? (top qs) t = none) (hu : u ∈ decisive) : ¬ accepts qs u := by
  intro ha
  have ho := h.offers_of_accepts ha
  simp only [offers, Bool.or_eq_true] at ho
  have hu' : ((row (top qs)).shifts.lookup u).isSome ∨
      ∃ p ∈ (row (top qs)).complete, u ∈ p.rule.follow := by
    refine ho.imp id fun hp => ?_
    obtain ⟨p, hp⟩ := Option.isSome_iff_exists.mp hp
    obtain ⟨hp, hadm, _⟩ := complete?_eq_some.mp hp
    exact ⟨p, hp, by simpa [Rule.admits] using hadm⟩
  obtain ⟨p, hp, hsub⟩ := h.follows.complete_of_decisive hne u hu hu'
  have hadm : p.rule.admits (.token t) := by
    simp only [Rule.admits, List.contains_iff_mem] at ht ⊢
    exact hsub ht
  obtain ⟨_, hr'⟩ := h.exists_reduce? (complete?_eq_some.mpr ⟨hp, hadm, fun _ ha => by
    cases ha
    exact hn⟩)
  rw [hr] at hr'
  cases hr'

theorem Spells.reads_assignment (h : Spells qs (.r r :: ss)) (hn : accepts qs .name) :
    reads qs [.name, .equal] := by
  have hadm := h.admits_of_offers (h.offers_of_accepts hn)
  obtain ⟨_, hf⟩ := Option.isSome_iff_exists.mp hn
  obtain ⟨q, hq, rfl⟩ := feed?_eq_some.mp hf
  obtain ⟨r', _, h', _⟩ := (h.settles _).rule_on_top h hadm
  have he := h'.follows.equal_of_name _ (mem_shifts hq) rfl
  obtain ⟨q', hq'⟩ := Option.isSome_iff_exists.mp he
  have hf' := (h'.shift? hq).feed?_of_shift? hq'
  rw [reads_cons_of_some hf, reads_single, accepts, hf']
  rfl

/-- A reduction made before a refused terminal, where something could have been shifted, is noticed. -/
theorem Spells.shifts_of_unnoticed (h : Spells qs ss)
    (hr : Automaton.reduce? qs (.token t) = some (p, qs')) (hd : Automaton.feed? qs t = none)
    (hreads : ∀ us, reads (Automaton.settled (.token t) qs) us = reads qs us) :
    (row (top qs)).shifts = [] := by
  obtain ⟨rest, _, h'⟩ := h.reduce? hr
  obtain ⟨hp, ht, _⟩ := complete?_eq_some.mp (reduce?_eq_some.mp hr).1
  have hs := h'.settles (.token t)
  obtain ⟨r, _, hr', hadm, hsub, htail⟩ := hs.rule_on_top h' ht
  rw [← h.settled_of_reduce? hr] at hr' hs
  have haccepts {u : Terminal} {q : State} (hq : Automaton.shift? (top qs) u = some q) :
      accepts (Automaton.settled (.token t) qs) u := by
    rw [← reads_single, hreads, reads_single, accepts, h.feed?_of_shift? hq]
    rfl
  refine Classical.byContradiction fun hn => ?_
  rcases h.regular.noticed hn p hp with
    ⟨e, he, hfollow⟩ | ⟨hne, e, he, hdec⟩ | ⟨q, hq, hequal⟩
  · obtain ⟨_, hq⟩ := shift?_of_mem he
    exact hfollow (hsub (hr'.mem_follow_of_accepts (haccepts hq)))
  · obtain ⟨_, hq⟩ := shift?_of_mem he
    have hne' : r ≠ .nameTail := by
      rcases htail with rfl | htail
      · exact hne
      · exact htail
    simp only [Automaton.feed?, Option.map_eq_none_iff] at hd
    exact hr'.not_accepts_of_decisive hne' hadm hs.reduce?_eq_none hd hdec (haccepts hq)
  · -- Both stacks take the name, but as the label of a jump it does not begin an assignment.
    have hread := hr'.reads_assignment (haccepts hq)
    rw [hreads, reads_cons_of_some (h.feed?_of_shift? hq), reads_single] at hread
    exact hequal ((h.shift? hq).offers_of_accepts hread)

/-- The reductions before a refused terminal go unnoticed only where each is forced. -/
theorem Settles.forced_of_unnoticed (hs : Settles (.token t) qs ps qs') (h : Spells qs ss)
    (hd : Automaton.feed? qs t = none) (hreads : ∀ us, reads qs' us = reads qs us) :
    ∀ q ∈ reducedIn (.token t) qs, (row q).shifts = [] := by
  induction hs generalizing ss with
  | done hr => simp [h.reducedIn_of_none hr]
  | step hr hs ih =>
      obtain ⟨_, _, h'⟩ := h.reduce? hr
      have hn := h.shifts_of_unnoticed hr hd (h.settled_eq (.step hr hs) ▸ hreads)
      have hf := Forced.of_reduce? hr hn
      rw [h.reducedIn_of_reduce? hr, List.forall_mem_cons]
      refine ⟨hn, ih h' ?_ fun us => ?_⟩
      · rw [← hf.feed?_eq h, hd]
      · rw [hreads, hf.reads_eq h]

end Typeahead.Automaton
