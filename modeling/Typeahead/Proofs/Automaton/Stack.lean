import Typeahead.Proofs.Automaton.Checks

/-!
Stacks that follow the automaton.

The states on a stack are those that the symbols read so far lead to. Every way back from a state that
completes a production spells its body, so a reduction finds its body on such a stack, and has somewhere
to go.
-/

namespace Typeahead.Automaton

/-! ## Rows -/

theorem mem_numbered {q : State} (h : q < rows.length) : (row q, q) ∈ numbered := by
  simp [numbered, List.mem_zipIdx_iff_getElem?, row_eq, h]

theorem row_eq_default {q : State} (h : rows.length ≤ q) : row q = {} := by
  simp [row_eq, h]

theorem row_mem {q : State} (h : q < rows.length) : row q ∈ rows := by
  simp [row_eq, h]

theorem regular_row {q : State} (h : q < rows.length) : (row q).Regular q :=
  regular_of_mem _ (mem_numbered h)

theorem lt_of_symbol {q : State} {s : Symbol} (h : (row q).symbol = some s) : q < rows.length := by
  refine Nat.lt_of_not_le fun hq => ?_
  rw [row_eq_default hq] at h
  cases h

theorem lt_of_next? {q q' : State} {s : Symbol} (h : (row q).next? s = some q') :
    q < rows.length := by
  refine Nat.lt_of_not_le fun hq => ?_
  rw [row_eq_default hq] at h
  cases s <;> cases h

theorem mem_of_lookup {α β : Type} [BEq α] [LawfulBEq α] {a : α} {b : β} {l : List (α × β)}
    (h : l.lookup a = some b) : (a, b) ∈ l := by
  obtain ⟨l₁, l₂, rfl, _⟩ := List.lookup_eq_some_iff.mp h
  simp

theorem mem_shifts {q q' : State} {t : Terminal} (h : shift? q t = some q') :
    (t, q') ∈ (row q).shifts := by
  unfold shift? at h
  exact mem_of_lookup h

/-- A state is entered by its own symbol only. -/
theorem symbol_of_next? {q q' : State} {s : Symbol} (h : (row q).next? s = some q') :
    (row q').symbol = some s := by
  have hr := regular_row (lt_of_next? h)
  have hq : (rows[q']?).bind Row.symbol = some s := by
    cases s with
    | t t =>
        rw [Row.next?_t] at h
        exact hr.symbol_of_shift (t, q') (mem_of_lookup h)
    | r r =>
        rw [Row.next?_r] at h
        exact hr.symbol_of_goto (r, q') (mem_of_lookup h)
  obtain ⟨r, hr, hs⟩ := Option.bind_eq_some_iff.mp hq
  rw [row_eq, hr]
  exact hs

theorem symbol_accepting : (row accepting).symbol = some (.r .file) :=
  symbol_of_next? next?_start

/-! ## Stacks -/

@[simp] theorem top_cons (q : State) (qs : List State) : top (q :: qs) = q := rfl

/-- A stack of states, top first, and the symbols that led to them. -/
inductive Spells : List State → List Symbol → Prop
  | nil : Spells [] []
  | cons {q : State} {qs : List State} {s : Symbol} {ss : List Symbol} :
      (row (top qs)).next? s = some q → Spells qs ss → Spells (q :: qs) (s :: ss)

namespace Spells

variable {qs : List State} {ss : List Symbol}

theorem length_eq (h : Spells qs ss) : qs.length = ss.length := by
  induction h with
  | nil => rfl
  | cons _ _ ih => simp [ih]

theorem symbol_top (h : Spells qs ss) : (row (top qs)).symbol = ss.head? := by
  cases h with
  | nil => exact symbol_start
  | cons hq _ => exact symbol_of_next? hq

theorem top_lt (h : Spells qs ss) : top qs < rows.length := by
  cases h with
  | nil => exact lt_of_next? next?_start
  | cons hq _ => exact lt_of_symbol (symbol_of_next? hq)

theorem top_mem (h : Spells qs ss) : (row (top qs), top qs) ∈ numbered :=
  mem_numbered h.top_lt

theorem regular (h : Spells qs ss) : (row (top qs)).Regular (top qs) :=
  regular_row h.top_lt

theorem splices {p : Production} (h : Spells qs ss) (hp : (row (top qs)).complete = some p) : Splices p :=
  splices_of_complete _ (row_mem h.top_lt) p hp

theorem follows {rule : Rule} (h : Spells qs (.r rule :: ss)) : (row (top qs)).Follows rule := by
  refine follows_of_mem _ (row_mem h.top_lt) rule ?_
  rw [h.symbol_top]
  rfl

/-- Only the empty stack has the start on top. -/
theorem eq_nil_of_top (h : Spells qs ss) (ht : top qs = start) : qs = [] := by
  cases h with
  | nil => rfl
  | cons hq _ =>
      have hs := symbol_of_next? hq
      rw [top_cons] at ht
      rw [ht, symbol_start] at hs
      cases hs

theorem drop (h : Spells qs ss) (n : Nat) : Spells (qs.drop n) (ss.drop n) := by
  induction h generalizing n with
  | nil => simpa using Spells.nil
  | cons hq hqs ih =>
      cases n with
      | zero => exact .cons hq hqs
      | succ n => exact ih n

end Spells

/-! ## Walking back -/

theorem mem_sources {q q' : State} {s : Symbol} {targets : List State}
    (h : (row q).next? s = some q') (ht : q' ∈ targets) : (row q, q) ∈ sources s targets := by
  have hq := mem_numbered (lt_of_next? h)
  cases s with
  | t t =>
      rw [Row.next?_t] at h
      have hne : (row q).shifts ≠ [] := List.ne_nil_of_mem (mem_of_lookup h)
      simp [sources, hq, hne, h, ht]
  | r r =>
      rw [Row.next?_r] at h
      have hne : (row q).gotos ≠ [] := List.ne_nil_of_mem (mem_of_lookup h)
      simp [sources, hq, hne, h, ht]

theorem Spells.of_spelledBack {r : Rule} {body : List Symbol} {targets : List (Row × State)}
    {qs : List State} {ss : List Symbol} (h : Spells qs ss) (hb : spelledBack r body targets)
    (ht : (row (top qs), top qs) ∈ targets) :
    body <+: ss ∧ ((row (top (qs.drop body.length))).gotos.lookup r).isSome := by
  induction body generalizing targets qs ss with
  | nil =>
      simp only [spelledBack, List.all_eq_true] at hb
      have hg := hb _ ht
      exact ⟨List.nil_prefix, hg⟩
  | cons s body ih =>
      simp only [spelledBack, Bool.and_eq_true, List.all_eq_true, beq_iff_eq] at hb
      have hs := hb.1 _ ht
      rw [h.symbol_top] at hs
      cases h with
      | nil => cases hs
      | cons hq hqs =>
          cases hs
          have hm := mem_sources hq (List.mem_map_of_mem (f := Prod.snd) ht)
          obtain ⟨hp, hg⟩ := ih hqs hb.2 hm
          exact ⟨List.cons_prefix_cons.mpr ⟨rfl, hp⟩, hg⟩

/-- A completed production finds its body on the stack, and its rule has somewhere to go. -/
theorem Spells.of_complete {qs : List State} {ss : List Symbol} {p : Production} (h : Spells qs ss)
    (hp : (row (top qs)).complete = some p) :
    ∃ rest q, ss = p.body.reverse ++ rest ∧ Spells (qs.drop p.body.length) rest ∧
      goto? (top (qs.drop p.body.length)) p.rule = some q := by
  obtain ⟨⟨rest, rfl⟩, hg⟩ := h.of_spelledBack
    (spelledBack_of_complete _ h.top_mem p hp) (List.mem_singleton.mpr rfl)
  rw [List.length_reverse] at hg
  obtain ⟨q, hq⟩ := Option.isSome_iff_exists.mp hg
  refine ⟨rest, q, rfl, ?_, hq⟩
  simpa using h.drop p.body.length

end Typeahead.Automaton
