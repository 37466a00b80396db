import Typeahead.Proofs.Import.Additions
import Typeahead.Proofs.Import.Blocks

/-!
The tokens of the preamble while a text is read. Until the preamble is complete these are all tokens of the parser, and
each token that is taken is one more; from then on they stay as they are, whatever is read or tried.
-/

namespace Typeahead

open Automaton Typeahead.Tree

variable {ss ss' rest : List Symbol} {s : Symbol} {stack stack' : List Tree} {t : Tree} {read : List Token}
  {issues : List Issue}

/-! ## The front of a stack -/

/-- The preamble, if a tree is one or is a file. -/
def Tree.preamble? (t : Tree) : Option Tree :=
  if t.isNode .preamble then
    some t
  else if t.isNode .file then
    t.children.head?
  else
    none

/-- The tokens of the preamble that lies at the bottom of a stack; all tokens, as long as none does. -/
def front (stack : List Tree) : List Token :=
  ((stack.getLast?.bind Tree.preamble?).map leaves).getD (leavesAll stack)

/-- Whether the preamble is complete on a stack. -/
def Closed (ss : List Symbol) : Prop :=
  ∃ s ∈ [Symbol.r .preamble, .r .file], ss.getLast? = some s

theorem opening_or_closed {qs : List State} (h : Spells qs ss) : ss ∈ openings ++ endings ∨ Closed ss := by
  rcases h.opening with h | h | h
  · exact .inl h
  · exact .inr ⟨_, by decide, h⟩
  · exact .inr ⟨_, by decide, h⟩

theorem not_closed (h : ss ∈ openings ++ endings) : ¬ Closed ss := by
  rintro ⟨s, hs, hlast⟩
  obtain ⟨hpreamble, hfile⟩ := ne_of_mem_openings ss h s (List.mem_of_getLast? hlast)
  rcases List.mem_pair.mp hs with rfl | rfl
  · exact hpreamble rfl
  · exact hfile rfl

theorem Closed.cons (h : Closed ss) (s : Symbol) : Closed (s :: ss) := by
  obtain ⟨s', hs', hlast⟩ := h
  refine ⟨s', hs', ?_⟩
  rw [List.getLast?_cons, hlast]
  rfl

theorem Closed.of_cons {a : Terminal} (h : Closed (.t a :: ss)) : Closed ss := by
  obtain ⟨s, hs, hlast⟩ := h
  cases ss with
  | nil =>
      cases hlast
      simp at hs
  | cons s' ss => exact ⟨s, hs, by rwa [List.getLast?_cons_cons] at hlast⟩

theorem Shaped.preamble?_eq_none (h : Shaped s t) (hp : s ≠ .r .preamble) (hf : s ≠ .r .file) : t.preamble? = none := by
  have hinner := h.inner hp hf t List.mem_cons_self
  simp only [Tree.inner, Bool.and_eq_true, Bool.not_eq_true'] at hinner
  simp [preamble?, hinner]

theorem rel_getLast? {R : Symbol → Tree → Prop} (h : List.Forall₂ R ss stack) :
    Option.Rel R ss.getLast? stack.getLast? := by
  induction h with
  | nil => exact .none
  | cons hr h ih =>
      cases h with
      | nil => exact .some hr
      | cons _ _ => simpa only [List.getLast?_cons_cons] using ih

theorem front_of_ne (h : List.Forall₂ Shaped ss stack)
    (hs : ∀ s ∈ ss.getLast?, s ≠ .r .preamble ∧ s ≠ .r .file) : front stack = leavesAll stack := by
  have hlast : stack.getLast?.bind Tree.preamble? = none := by
    have hrel := rel_getLast? h
    cases hss : ss.getLast? with
    | none =>
        rw [hss] at hrel
        generalize stack.getLast? = last at hrel
        cases hrel
        rfl
    | some s =>
        obtain ⟨hp, hf⟩ := hs s hss
        rw [hss] at hrel
        generalize stack.getLast? = last at hrel
        cases hrel with
        | some ht => exact ht.preamble?_eq_none hp hf
  rw [front, hlast]
  rfl

theorem front_of_opening (h : List.Forall₂ Shaped ss stack) (hs : ss ∈ openings ++ endings) :
    front stack = leavesAll stack :=
  front_of_ne h fun s hmem => ne_of_mem_openings ss hs s (List.mem_of_getLast? hmem)

theorem front_of_getLast? {preamble : Tree} (h : stack.getLast? = some t) (hp : t.preamble? = some preamble) :
    front stack = preamble.leaves := by
  rw [front, h, Option.bind_some, hp]
  rfl

theorem Shaped.exists_preamble (h : Shaped s t) (hs : s ∈ [Symbol.r .preamble, .r .file]) :
    ∃ preamble, t.preamble? = some preamble := by
  rcases List.mem_pair.mp hs with rfl | rfl
  · obtain ⟨_, _, rfl⟩ := exists_node (by decide) h
    exact ⟨_, rfl⟩
  · obtain ⟨_, preamble, _, rfl, _⟩ := h
    exact ⟨preamble, rfl⟩

/-- Where the preamble is complete, it lies at the bottom. -/
theorem Closed.exists_preamble (hc : Closed ss) (h : List.Forall₂ Shaped ss stack) :
    ∃ t preamble, stack.getLast? = some t ∧ t.preamble? = some preamble := by
  obtain ⟨s, hs, hlast⟩ := hc
  have hrel := rel_getLast? h
  rw [hlast] at hrel
  generalize stack.getLast? = last at hrel
  cases hrel with
  | some ht =>
      obtain ⟨preamble, hp⟩ := ht.exists_preamble hs
      exact ⟨_, preamble, rfl, hp⟩

/-- Then nothing above it matters. -/
theorem Closed.front_eq (hc : Closed ss) (h : List.Forall₂ Shaped ss stack) (hlast : stack'.getLast? = stack.getLast?) :
    front stack' = front stack := by
  obtain ⟨t, preamble, ht, hp⟩ := hc.exists_preamble h
  rw [front_of_getLast? (hlast.trans ht) hp, front_of_getLast? ht hp]

/-! ## Reductions -/

theorem preamble_of_alternative {rule : Rule} : ∀ body ∈ rule.alternatives,
    (rule ≠ .file → .r .preamble ∉ body ∧ .r .file ∉ body) ∧ (rule = .file → body.head? = some (.r .preamble)) := by
  cases rule <;> decide

theorem front_singleton (h : Shaped s t) (hs : s ≠ .r .file) : front [t] = leavesAll [t] := by
  by_cases hp : s = .r .preamble
  · subst hp
    obtain ⟨_, _, rfl⟩ := h.exists_node (by decide)
    rw [front_of_getLast? rfl rfl]
    exact (List.append_nil _).symm
  · refine front_of_ne (.cons h .nil) ?_
    rintro _ ⟨⟩
    exact ⟨hp, hs⟩

/-- A file has the preamble that it is built from. -/
theorem front_build_file {tail : List Symbol} (h : List.Forall₂ Shaped (.r .preamble :: tail) stack.reverse) :
    front [build ⟨.file, .r .preamble :: tail⟩ stack.reverse] = front stack := by
  have hlast : stack.getLast? = stack.reverse.head? := List.getLast?_eq_head?_reverse
  generalize stack.reverse = parts at h hlast ⊢
  cases h with
  | cons hp _ =>
      obtain ⟨_, _, rfl⟩ := hp.exists_node (by decide)
      rw [front_of_getLast? hlast rfl]
      refine front_of_getLast? rfl ?_
      simp [build, Rule.collapses, gather, share, Symbol.spliced, Rule.spliced, preamble?, isNode, children]

/-- A reduction above the bottom does not reach it. -/
theorem getLast?_reduce {p : Production} (h : stack.drop p.body.length ≠ []) :
    (Tree.reduce stack p).getLast? = stack.getLast? := by
  rw [Tree.reduce, ← List.singleton_append, List.getLast?_append_of_ne_nil _ h]
  conv_rhs => rw [← List.take_append_drop p.body.length stack, List.getLast?_append_of_ne_nil _ h]

theorem front_reduce {p : Production} (hb : p.body ∈ p.rule.alternatives)
    (h : List.Forall₂ Shaped (p.body.reverse ++ rest) stack) : front (Tree.reduce stack p) = front stack := by
  obtain ⟨hparts, hrest⟩ := forall₂_parts h
  have hleaves := leavesAll_reduce (Shaped.fills_all h)
  cases rest with
  | cons s rest =>
      have hne : stack.drop p.body.length ≠ [] := by
        intro hnil
        rw [hnil] at hrest
        cases hrest
      rw [front, front, getLast?_reduce hne, hleaves]
  | nil =>
      have hdrop : stack.drop p.body.length = [] := List.forall₂_nil_left_iff.mp hrest
      have htake : stack.take p.body.length = stack := List.take_of_length_le (List.drop_eq_nil_iff.mp hdrop)
      obtain ⟨hother, hfile⟩ := preamble_of_alternative p.body hb
      obtain ⟨rule, body⟩ := p
      by_cases hrule : rule = .file
      · subst hrule
        obtain ⟨tail, rfl⟩ := List.head?_eq_some_iff.mp (hfile rfl)
        rw [htake] at hparts
        rw [Tree.reduce, hdrop, htake, front_build_file hparts]
      · have hshaped := Shaped.reduce hb h
        rw [Tree.reduce, hdrop] at hshaped hleaves ⊢
        cases hshaped with
        | cons ht _ =>
            rw [front_singleton ht (by simpa using hrule), hleaves, front_of_ne h]
            intro s hs
            rw [List.append_nil, List.getLast?_reverse] at hs
            obtain ⟨hpreamble, hfile⟩ := hother hrule
            have hmem := List.mem_of_mem_head? hs
            exact ⟨fun heq => hpreamble (heq ▸ hmem), fun heq => hfile (heq ▸ hmem)⟩

/-! ## The parser's steps -/

namespace Parser

variable {p : Parser} {place : Position} {u : Terminal} {token : Token} {qs : List State}

/-- The trees on a parser's stack have the shapes that go with the symbols that led to its states. -/
def Outlined (p : Parser) (ss : List Symbol) : Prop :=
  Spells p.states ss ∧ List.Forall₂ Shaped ss p.values

namespace Outlined

theorem initial : initial.Outlined [] :=
  ⟨.nil, .nil⟩

/-- Reductions change nothing about the preamble, and do not open it again. -/
theorem settle (h : p.Outlined ss) (a : Lookahead) : ∃ ss', (p.settle a).Outlined ss' ∧
    front (p.settle a).values = front p.values ∧ (ss' ∈ openings → ss ∈ openings) := by
  obtain ⟨hs, hv⟩ := h
  refine (hs.settles a).foldl (M := fun qs vs => ∃ ss', Outlined ⟨qs, vs⟩ ss' ∧ front vs = front p.values ∧
    (ss' ∈ openings → ss ∈ openings)) ?_ ⟨ss, ⟨hs, hv⟩, rfl, id⟩
  rintro qs qs' r vs hr ⟨ss', ⟨hs, hv⟩, hfront, hopen⟩
  have hb := alternative_of_complete _ (row_mem hs.top_lt) r (complete_of_reduce? hr)
  obtain ⟨rest, rfl, hs'⟩ := hs.reduce? hr
  refine ⟨_, ⟨hs', Shaped.reduce hb hv⟩, (front_reduce hb hv).trans hfront, fun hmem => hopen ?_⟩
  exact body_mem_openings _ hmem (.r r.rule) (by simp) r.body hb

theorem not_mem_endings (h : p.Outlined ss) {q : State} (hq : shift? (top p.states) u = some q) : ss ∉ endings := by
  intro hmem
  have hsymbol := h.1.symbol_top.trans (head?_of_mem_endings ss hmem)
  have hshift := mem_shifts hq
  rw [after_importList _ (row_mem h.1.top_lt) hsymbol] at hshift
  cases hshift

/-- A token that is taken is one more of the preamble, unless that is complete. -/
theorem feed (h : p.Outlined ss) (hf : feed? p.states u = some qs) (hk : token.kind = .terminal u) :
    ∃ ss', (p.feed u token).2.Outlined ss' ∧
      ((ss ∈ openings ∧ ss' ∈ openings ∧ front (p.feed u token).2.values = front p.values ++ [token]) ∨
        (ss' ∉ openings ∧ front (p.feed u token).2.values = front p.values)) := by
  obtain ⟨ss₁, h₁, hfront, hopen⟩ := h.settle (.token u)
  rw [feed_of_some hf]
  obtain ⟨q, hq, rfl⟩ := feed?_eq_some.mp hf
  have h' : Outlined ⟨q :: settled (.token u) p.states, .leaf token :: (p.settle (.token u)).values⟩ (.t u :: ss₁) :=
    ⟨h₁.1.shift? hq, .cons (Shape.leaf_singleton_iff.mpr ⟨token, rfl, hk⟩) h₁.2⟩
  refine ⟨.t u :: ss₁, h', ?_⟩
  rcases opening_or_closed h₁.1 with hmem | hclosed
  · have hmem₁ : ss₁ ∈ openings := (List.mem_append.mp hmem).resolve_right (h₁.not_mem_endings hq)
    have hmem' : Symbol.t u :: ss₁ ∈ openings := by
      rcases opening_or_closed h'.1 with hmem' | hclosed
      · refine (List.mem_append.mp hmem').resolve_right fun hend => ?_
        cases head?_of_mem_endings _ hend
      · exact absurd hclosed.of_cons (not_closed hmem)
    refine .inl ⟨hopen hmem₁, hmem', ?_⟩
    rw [← hfront, front_of_opening h₁.2 hmem, front_of_opening h'.2 (List.mem_append_left _ hmem'), leavesAll_cons,
      leaves_leaf]
  · refine .inr ⟨fun hmem => not_closed (List.mem_append_left _ hmem) (hclosed.cons _), ?_⟩
    rw [hclosed.front_eq h₁.2 ?_, hfront]
    obtain ⟨t, _, ht, _⟩ := hclosed.exists_preamble h₁.2
    rw [List.getLast?_cons, ht]
    rfl

theorem outlined_search (h : p.Outlined ss) (place : Position) (wanted : Option Terminal) :
    (p.search place wanted).Outlined ss := by
  refine ⟨by rw [search_states]; exact h.1, ?_⟩
  exact (search_induct (I := fun _ => True) h.1 h.2 trivial (fun _ _ _ _ _ => trivial) place wanted).1

/-- Searches leave a complete preamble alone. -/
theorem search_of_closed (h : p.Outlined ss) (hc : Closed ss) (place : Position) (wanted : Option Terminal) :
    front (p.search place wanted).values = front p.values := by
  have hlast : ∀ s ∈ ss.getLast?, ¬ s.spliced := by
    obtain ⟨s, hs, hlast⟩ := hc
    rw [hlast]
    rintro _ ⟨⟩
    rcases List.mem_pair.mp hs with rfl | rfl <;> decide
  obtain ⟨_, hsame⟩ := search_induct (I := fun stack => stack.getLast? = p.values.getLast?) h.1 h.2 rfl
    (fun _ _ hs hI hadds => (Addition.getLast?_eq_all hadds hs hlast).trans hI) place wanted
  exact hc.front_eq h.2 hsame

end Outlined

end Parser

/-! ## The end of a text -/

/-- Whether a tree is a file that has some tokens in its preamble, or has no preamble at all. -/
def Fronted (tokens : List Token) (t : Tree) : Prop :=
  ∃ (span : Option Span) (children : List Tree), t = .node .file span children ∧
    ((∃ preamble rest, children = preamble :: rest ∧ Shape.Preamble preamble ∧ (∀ c ∈ rest, c.inner) ∧
      preamble.leaves = tokens) ∨ ∀ c ∈ children, c.isNode .preamble = false)

theorem isNode_of_inner (h : t.inner) : t.isNode .preamble = false := by
  simp only [Tree.inner, Bool.and_eq_true, Bool.not_eq_true'] at h
  exact h.2

theorem forall_mem_of_forall₂ {R : Symbol → Tree → Prop} {P : Tree → Prop} (h : List.Forall₂ R ss stack)
    (hP : ∀ s ∈ ss, ∀ t, R s t → P t) : ∀ t ∈ stack, P t := by
  induction h with
  | nil => exact List.forall_mem_nil _
  | cons hr _ ih =>
      rw [List.forall_mem_cons] at hP
      exact List.forall_mem_cons.mpr ⟨hP.1 _ hr, ih hP.2⟩

namespace Parser.Outlined

variable {p : Parser}

theorem accept (h : p.Outlined ss) (ha : top p.states = accepting) : Fronted (front p.values) p.accept.tree := by
  obtain ⟨states, values⟩ := p
  obtain ⟨hs, hv⟩ := h
  obtain ⟨_, rfl⟩ := hs.eq_of_accepting ha
  cases hv with
  | cons ht hnil =>
      cases hnil
      obtain ⟨span, preamble, rest, rfl, hp, hrest⟩ := ht
      exact ⟨span, _, rfl, .inl ⟨preamble, rest, rfl, hp, hrest, (front_of_getLast? rfl rfl).symm⟩⟩

/-- Side by side, only the lowest tree can be a preamble. -/
theorem abandon (h : p.Outlined ss) : Fronted (front p.values) p.abandon.tree := by
  obtain ⟨states, values⟩ := p
  obtain ⟨hs, hv⟩ := h
  refine ⟨none, values.reverse, rfl, ?_⟩
  rcases List.eq_nil_or_concat ss with rfl | ⟨sa, s, rfl⟩
  · cases hv
    exact .inr (List.forall_mem_nil _)
  · rw [List.concat_eq_append] at hs hv
    have hothers := hs.not_mem_of_mem_dropLast
    rw [List.dropLast_concat] at hothers
    have hrel := List.rel_reverse hv
    rw [List.reverse_append, List.reverse_singleton, List.singleton_append] at hrel
    have hlast : values.getLast? = values.reverse.head? := List.getLast?_eq_head?_reverse
    generalize values.reverse = children at hrel hlast ⊢
    cases hrel with
    | @cons _ t _ rest ht hrest =>
        have hinner : ∀ c ∈ rest, c.inner := by
          refine forall_mem_of_forall₂ hrest fun s hs c hc => ?_
          have hs := hothers s (List.mem_reverse.mp hs)
          simp only [List.mem_cons, List.not_mem_nil, or_false, not_or] at hs
          exact hc.inner hs.1 hs.2 c List.mem_cons_self
        by_cases hp : s = .r .preamble
        · subst hp
          obtain ⟨_, _, rfl⟩ := ht.exists_node (by decide)
          exact .inl ⟨_, rest, rfl, ht, hinner, (front_of_getLast? hlast rfl).symm⟩
        · refine .inr (List.forall_mem_cons.mpr ⟨?_, fun c hc => isNode_of_inner (hinner c hc)⟩)
          by_cases hf : s = .r .file
          · subst hf
            obtain ⟨_, _, rfl⟩ := ht.exists_node (by decide)
            rfl
          · exact isNode_of_inner (ht.inner hp hf t List.mem_cons_self)

end Parser.Outlined

/-! ## Searches before the preamble is complete -/

theorem plain_leavesAll {sa : List Symbol} {above : List Tree} (h : List.Forall₂ Shaped sa above)
    (hs : ∀ s ∈ sa, s ∈ Shaped.plain) : ∀ x ∈ leavesAll above, x.kind ≠ .terminal .kwImport := by
  induction h with
  | nil => exact List.forall_mem_nil _
  | cons ht _ ih =>
      rw [List.forall_mem_cons] at hs
      rw [leavesAll_cons]
      exact List.forall_mem_append.mpr ⟨ih hs.2, ht.plain_of_mem hs.1⟩

theorem length_names {sa : List Symbol} {above : List Tree} (h : List.Forall₂ Shaped sa above)
    (hs : ∀ s ∈ sa, s ∈ [Symbol.t .dot, .t .name]) :
    ((leavesAll above).filter Token.isName).length = sa.count (.t .name) := by
  induction h with
  | nil => rfl
  | cons ht _ ih =>
      rw [List.forall_mem_cons] at hs
      rw [leavesAll_cons, List.filter_append, List.length_append, ih hs.2]
      rcases List.mem_pair.mp hs.1 with rfl | rfl
      all_goals
        obtain ⟨token, rfl, hk⟩ := Shape.leaf_singleton_iff.mp ht
        simp [Token.isName, hk]

theorem Shaped.header_leaves (h : Shaped s t) (hs : s ∈ [Symbol.t .kwImport, .r .importHeader]) :
    ∃ k zs, t.leaves = k :: zs ∧ k.kind = .terminal .kwImport ∧ ∀ z ∈ zs, z.kind ≠ .terminal .kwImport := by
  rcases List.mem_pair.mp hs with rfl | rfl
  · obtain ⟨k, rfl, hk⟩ := Shape.leaf_singleton_iff.mp h
    exact ⟨k, [], rfl, hk, List.forall_mem_nil _⟩
  · obtain ⟨_, k, name, rest, rfl, hk, hname, hrest⟩ := h
    refine ⟨k, name.leaves ++ rest.flatMap leaves, by simp, hk, List.forall_mem_append.mpr ⟨hname.plain, ?_⟩⟩
    intro z hz
    obtain ⟨c, hc, hz⟩ := List.mem_flatMap.mp hz
    exact (hrest c hc).plain (by decide) z hz

/-- An import from its keyword on. -/
theorem header_leavesAll {sa : List Symbol} {above : List Tree} (h : List.Forall₂ Shaped sa above)
    (hlast : sa.getLast? ∈ [some (Symbol.t .kwImport), some (.r .importHeader)])
    (hs : ∀ s ∈ sa.dropLast, s ∈ Shaped.plain) :
    ∃ k zs, leavesAll above = k :: zs ∧ k.kind = .terminal .kwImport ∧ ∀ z ∈ zs, z.kind ≠ .terminal .kwImport := by
  induction h with
  | nil => simp at hlast
  | @cons s t sa above ht h ih =>
      cases h with
      | nil =>
          have hs : s ∈ [Symbol.t .kwImport, .r .importHeader] := by simpa using hlast
          obtain ⟨k, zs, hleaves, hk, hz⟩ := ht.header_leaves hs
          exact ⟨k, zs, by simpa [leavesAll] using hleaves, hk, hz⟩
      | cons _ _ =>
          rw [List.dropLast_cons_cons, List.forall_mem_cons] at hs
          rw [List.getLast?_cons_cons] at hlast
          obtain ⟨k, zs, hleaves, hk, hz⟩ := ih hlast hs.2
          refine ⟨k, zs ++ t.leaves, ?_, hk, List.forall_mem_append.mpr ⟨hz, ht.plain_of_mem hs.1⟩⟩
          rw [leavesAll_cons, hleaves, List.cons_append]

/-- What lies above a repeated part of a preamble may be copied. -/
theorem copyable_of_opening {sa sb : List Symbol} {above : List Tree} (hopen : sa ++ s :: sb ∈ openings ++ endings)
    (hsp : s.spliced) (h : List.Forall₂ Shaped sa above) (hstack : (∀ s ∈ sa, ¬ s.spliced) → above <+: stack) :
    Copyable (leavesAll stack) (leavesAll above) := by
  have hsteady := steady_of_mem_openings _ hopen s (by simp) hsp
  have habove := above_steady _ hopen sa.length (by simp) (by simpa using hsteady)
  rw [List.take_left' rfl] at habove
  rcases habove with ⟨hs, hcount⟩ | ⟨hlast, hs⟩
  · have hsub : [Symbol.t .dot, .t .name] ⊆ Shaped.plain := by decide
    obtain ⟨below, rfl⟩ := hstack fun s hmem => by
      rcases List.mem_pair.mp (hs s hmem) with rfl | rfl <;> decide
    exact .name (plain_leavesAll h fun s hmem => hsub (hs s hmem)) (length_names h hs ▸ hcount)
      (leavesAll_append above below)
  · obtain ⟨k, zs, hleaves, hk, hz⟩ := header_leavesAll h hlast hs
    rw [hleaves]
    exact .header hk hz

/-- The additions of one trial keep the blocks orderly. -/
theorem Orderly.additions (hopen : ss ∈ openings ++ endings) (hs : List.Forall₂ Shaped ss stack)
    (ho : Orderly read issues (blocks (leavesAll stack)))
    (h : Relation.ReflTransGen (Addition ss (leavesAll stack)) stack stack') :
    Orderly read issues (blocks (leavesAll stack')) ∧
      Resumes (blocks (leavesAll stack)) (blocks (leavesAll stack')) := by
  induction h with
  | refl => exact ⟨ho, .refl _⟩
  | @tail mid _ hadds hadd ih =>
      obtain ⟨sa, s, sb, above, below, made, rfl, hsp, habove, hmade, rfl, hleaves⟩ :=
        hadd.leaves_eq (Addition.shaped_all hadds hs)
      rw [leavesAll_append] at ih
      rw [hleaves]
      refine ho.copy ih.1 ih.2 hmade (copyable_of_opening hopen hsp habove fun hns => ?_)
      -- No tree above the first repeated part has changed.
      have htake := Addition.take_eq_all hadds (n := sa.length) (by rwa [List.take_left' rfl])
      rw [List.take_left' habove.length_eq.symm] at htake
      rw [htake]
      exact List.take_prefix _ _

/-- Searches keep the blocks orderly, and go on with the latest one. -/
theorem Parser.Outlined.search_of_opening {p : Parser} (h : p.Outlined ss) (hopen : ss ∈ openings ++ endings)
    (ho : Orderly read issues (blocks (front p.values))) (place : Position) (wanted : Option Terminal) :
    Orderly read issues (blocks (front (p.search place wanted).values)) ∧
      Resumes (blocks (front p.values)) (blocks (front (p.search place wanted).values)) := by
  rw [front_of_opening h.2 hopen] at ho ⊢
  have hstep : ∀ stack stack', List.Forall₂ Shaped ss stack →
      Orderly read issues (blocks (leavesAll stack)) ∧
        Resumes (blocks (leavesAll p.values)) (blocks (leavesAll stack)) →
      Relation.ReflTransGen (Addition ss (leavesAll stack)) stack stack' →
      Orderly read issues (blocks (leavesAll stack')) ∧
        Resumes (blocks (leavesAll p.values)) (blocks (leavesAll stack')) := by
    rintro stack stack' hs ⟨ho, hr⟩ hadds
    obtain ⟨ho', hr'⟩ := ho.additions hopen hs hadds
    exact ⟨ho', hr.trans hr'⟩
  obtain ⟨hv, hI⟩ := search_induct (I := fun stack => Orderly read issues (blocks (leavesAll stack)) ∧
    Resumes (blocks (leavesAll p.values)) (blocks (leavesAll stack))) h.1 h.2 ⟨ho, .refl _⟩ hstep place wanted
  rwa [front_of_opening hv hopen]

end Typeahead
