import Typeahead.Proofs.Parser.Trial
import Typeahead.Proofs.Token.InOrder

/-!
How trees lie over a text. A finished tree covers the lines of the tokens in it. On a parser's stack the trees
cover ever later lines, and a tree that trials have added to holds, beside what it covers, only tokens that
come again further up.
-/

namespace Typeahead

open Automaton

/-- Whether a span begins and ends on lines no earlier than those of another. -/
def Span.Later (s s' : Span) : Prop :=
  s'.start.line ≤ s.start.line ∧ s'.stop.line ≤ s.stop.line

namespace Tree

variable {s : Symbol} {t : Tree} {ss : List Symbol} {parts stack above below extra : List Tree}
  {p : Production} {rest : List Symbol}

/-! ## Finished and open trees -/

/-- Whether a token is on the lines that a span covers. -/
def Within (span : Option Span) (token : Token) : Prop :=
  ∃ s ∈ span, s.start.line ≤ token.start.line ∧ token.stop.line ≤ s.stop.line

/-- Finished trees: each node covers the lines of its tokens, and none is left to be spliced. -/
inductive Tight : Tree → Prop
  | leaf (token : Token) : Tight (.leaf token)
  | node {rule : Rule} {span : Option Span} {children : List Tree} : rule.spliced = false →
      (∀ t ∈ children, Tight t) → (∀ token ∈ written (children.flatMap leaves), Within span token) →
      Tight (.node rule span children)

/-- Whether a tree is a node of a spliced rule, which can still be added to. -/
def isOpen : Tree → Bool
  | .leaf _ => false
  | .node rule _ _ => rule.spliced

theorem Tight.isOpen_eq_false (h : Tight t) : t.isOpen = false := by
  cases h with
  | leaf token => rfl
  | node hr _ _ => exact hr

@[simp] theorem isOpen_extend (extra : List Tree) (t : Tree) : (t.extend extra).isOpen = t.isOpen := by
  cases t <;> rfl

@[simp] theorem span?_extend (extra : List Tree) (t : Tree) : (t.extend extra).span? = t.span? := by
  cases t <;> rfl

/-- What a tree on a stack is: open for a spliced rule, finished for any other symbol. -/
inductive Stands (s : Symbol) : Tree → Prop
  | finished {t : Tree} : s.spliced = false → Tight t → Stands s t
  | unfinished {rule : Rule} {span : Option Span} {children : List Tree} : s.spliced → rule.spliced →
      children ≠ [] → (∀ t ∈ children, Tight t) → Stands s (.node rule span children)

theorem Stands.fills (h : Stands s t) : Fills s t := by
  intro hs
  cases h with
  | finished hf _ => simp [hs] at hf
  | unfinished _ _ _ _ => rfl

theorem Stands.isOpen_of_spliced (h : Stands s t) (hs : s.spliced) : t.isOpen := by
  cases h with
  | finished hf _ => simp [hs] at hf
  | unfinished _ hr _ _ => exact hr

theorem Stands.extend (h : Stands s t) (ho : t.isOpen) (hx : ∀ x ∈ extra, Tight x) :
    Stands s (t.extend extra) := by
  cases h with
  | finished _ ht => simp [ht.isOpen_eq_false] at ho
  | unfinished hs hr hne hc =>
      exact .unfinished hs hr (by simp [hne]) (List.forall_mem_append.mpr ⟨hc, hx⟩)

theorem leaves_extend_of_isOpen (ho : t.isOpen) (extra : List Tree) :
    (t.extend extra).leaves = t.leaves ++ extra.flatMap leaves := by
  cases t with
  | leaf token => cases ho
  | node rule span children => simp [Tree.extend]

theorem tight_share (h : Stands s t) : share (s, t) ≠ [] ∧ ∀ c ∈ share (s, t), Tight c := by
  cases h with
  | finished hs ht => simp [share, hs, ht]
  | unfinished hs _ hne hc =>
      simp only [share, hs, ↓reduceIte, children]
      exact ⟨hne, hc⟩

theorem tight_gather (h : List.Forall₂ Stands ss parts) :
    ss.length ≤ (gather ss parts).length ∧ ∀ c ∈ gather ss parts, Tight c := by
  induction h with
  | nil => simp [gather]
  | cons hst _ ih =>
      obtain ⟨hne, ht⟩ := tight_share hst
      rw [gather] at ih ⊢
      rw [List.zip_cons_cons, List.flatMap_cons, List.length_append, List.length_cons]
      have hpos := List.length_pos_iff.mpr hne
      exact ⟨by omega, List.forall_mem_append.mpr ⟨ht, ih.2⟩⟩

/-- A tree is its only part, or a node that covers its parts. -/
theorem build_cases (hp : Splices p) (h : List.Forall₂ Stands p.body parts) :
    (∃ t, parts = [t] ∧ Tight t ∧ p.rule.spliced = false ∧ build p parts = t) ∨
    build p parts = .node p.rule (cover parts) (gather p.body parts) := by
  rw [build]
  split
  · rename_i child hc hg
    -- Every part gives something, so a single child comes from a single part.
    have hlen := (tight_gather h).1
    rw [hg] at hlen
    have hr : p.rule.spliced = false := by
      cases hs : p.rule.spliced with
      | false => rfl
      | true => rw [not_collapses_of_spliced hs] at hc; cases hc
    cases hb : p.body with
    | nil => simp [gather, hb] at hg
    | cons s ss =>
        rw [hb, List.length_cons, List.length_singleton] at hlen
        obtain rfl : ss = [] := List.eq_nil_of_length_eq_zero (by omega)
        have hs := hp.whole hc s (by simp [hb]) hb
        rw [hb] at h hg
        cases h with
        | cons hst hnil =>
            cases hnil
            cases hst with
            | finished _ ht =>
                refine .inl ⟨_, rfl, ht, hr, ?_⟩
                simpa [gather, share, hs] using hg.symm
            | unfinished hs' => simp [hs'] at hs
  · exact .inr rfl

/-! ## Stacks of trees -/

/-- The spans of a stack of trees, top first. -/
def spans (stack : List Tree) : List Span :=
  stack.filterMap span?

theorem spans_append (above below : List Tree) : spans (above ++ below) = spans above ++ spans below :=
  List.filterMap_append

theorem spans_cons (t : Tree) (stack : List Tree) : spans (t :: stack) = t.span?.toList ++ spans stack := by
  cases h : t.span? <;> simp [spans, h]

/-- What holds of the trees on a parser's stack, top first. -/
structure Laid (stack : List Tree) : Prop where
  ordered : (spans stack).Pairwise Span.Later
  held : ∀ above t below, stack = above ++ t :: below →
    ∀ token ∈ written t.leaves, Within t.span? token ∨ token ∈ written (leavesAll above)
  inOrder : ∀ above below, stack = above ++ below → InOrder (written (leavesAll above))

/-- Parts on a stack are covered from the lowest to the topmost. -/
theorem cover_cases (parts : List Tree) :
    (spans parts = [] ∧ cover parts.reverse = none) ∨
    ∃ first last, (spans parts).getLast? = some first ∧ (spans parts).head? = some last ∧
      cover parts.reverse = some ⟨first.start, last.stop⟩ := by
  have hfirst : (parts.reverse.filterMap span?).head? = (spans parts).getLast? := by
    rw [List.filterMap_reverse, List.head?_reverse, spans]
  have hlast : (parts.reverse.filterMap span?).getLast? = (spans parts).head? := by
    rw [List.filterMap_reverse, List.getLast?_reverse, spans]
  cases h : spans parts with
  | nil =>
      rw [h] at hfirst
      exact .inl ⟨rfl, by simp only [cover, hfirst, List.getLast?_nil]⟩
  | cons last rest =>
      have hsome := List.getLast?_eq_some_getLast (List.cons_ne_nil last rest)
      rw [h] at hfirst hlast
      exact .inr ⟨_, last, hsome, rfl, by simp only [cover, hfirst, hlast, hsome, List.head?_cons]⟩

theorem exists_of_mem_cover {c : Span} (hc : c ∈ cover parts.reverse) :
    ∃ first ∈ spans parts, ∃ last ∈ spans parts, c = ⟨first.start, last.stop⟩ := by
  rcases cover_cases parts with ⟨_, hnone⟩ | ⟨first, last, hf, hl, hsome⟩
  · simp [hnone] at hc
  · exact ⟨first, List.mem_of_getLast? hf, last, List.mem_of_head? hl, by simpa [hsome] using hc.symm⟩

theorem within_cover_of_mem {s : Span} {token : Token} (ho : (spans parts).Pairwise Span.Later)
    (hs : s ∈ spans parts) (hw : Within (some s) token) : Within (cover parts.reverse) token := by
  obtain ⟨_, hw, hstart, hstop⟩ := hw
  obtain rfl := Option.some.inj hw
  rcases cover_cases parts with ⟨hnil, _⟩ | ⟨first, last, hf, hl, hsome⟩
  · simp [hnil] at hs
  · have hlast : s.stop.line ≤ last.stop.line := by
      obtain ⟨rest, hrest⟩ := List.head?_eq_some_iff.mp hl
      rw [hrest] at hs ho
      rcases List.mem_cons.mp hs with rfl | hs
      · exact Nat.le_refl _
      · exact ((List.pairwise_cons.mp ho).1 s hs).2
    have hfirst : first.start.line ≤ s.start.line := by
      obtain ⟨rest, hrest⟩ := List.getLast?_eq_some_iff.mp hf
      rw [hrest] at hs ho
      rcases List.mem_append.mp hs with hs | hs
      · exact ((List.pairwise_append.mp ho).2.2 s hs first (by simp)).1
      · obtain rfl := List.mem_singleton.mp hs
        exact Nat.le_refl _
    exact ⟨_, hsome, Nat.le_trans hfirst hstart, Nat.le_trans hstop hlast⟩

theorem exists_topmost {token : Token} (h : token ∈ written (leavesAll stack)) : ∃ above t below,
    stack = above ++ t :: below ∧ token ∈ written t.leaves ∧ token ∉ written (leavesAll above) := by
  induction stack with
  | nil => simp [leavesAll, written] at h
  | cons t stack ih =>
      by_cases ht : token ∈ written t.leaves
      · exact ⟨[], t, stack, rfl, ht, by simp [leavesAll, written]⟩
      · rw [leavesAll_cons, written_append, List.mem_append] at h
        obtain ⟨above, t', below, rfl, ht', hn⟩ := ih (h.resolve_right ht)
        refine ⟨t :: above, t', below, rfl, ht', ?_⟩
        rw [leavesAll_cons, written_append, List.mem_append]
        exact fun hmem => hmem.elim hn ht

namespace Laid

theorem nil : Laid [] := by
  refine ⟨.nil, fun above t below h => by simp at h, fun above below h => ?_⟩
  obtain ⟨rfl, rfl⟩ := List.append_eq_nil_iff.mp h.symm
  exact .nil

theorem within_cover (h : Laid (parts ++ below)) {token : Token} (ht : token ∈ written (leavesAll parts)) :
    Within (cover parts.reverse) token := by
  -- In the topmost tree that has the token, it cannot be an addition.
  obtain ⟨above, t, lower, rfl, hmem, hn⟩ := exists_topmost ht
  have hw := (h.held above t (lower ++ below) (by simp) token hmem).resolve_right hn
  obtain ⟨s, hs, hlines⟩ := hw
  have ho := h.ordered
  rw [spans_append] at ho
  refine within_cover_of_mem (List.pairwise_append.mp ho).1 (List.mem_filterMap.mpr ⟨t, ?_, hs⟩) ⟨s, rfl, hlines⟩
  simp

/-- A node over the upper part of a stack takes its place. -/
theorem node (h : Laid (parts ++ below)) (hl : t.leaves = leavesAll parts)
    (hs : t.span? = cover parts.reverse) : Laid (t :: below) := by
  have hleaves (above : List Tree) : leavesAll (t :: above) = leavesAll (parts ++ above) := by
    rw [leavesAll_cons, leavesAll_append, hl]
  refine ⟨?_, fun above u lower hsplit token hu => ?_, fun above lower hsplit => ?_⟩
  · have ho := h.ordered
    rw [spans_append, List.pairwise_append] at ho
    rw [spans_cons, List.pairwise_append]
    refine ⟨?_, ho.2.1, fun c hc s hs' => ?_⟩
    · cases t.span? <;> simp
    · rw [hs, Option.mem_toList] at hc
      obtain ⟨first, hf, last, hl, rfl⟩ := exists_of_mem_cover hc
      exact ⟨(ho.2.2 first hf s hs').1, (ho.2.2 last hl s hs').2⟩
  · rcases List.append_eq_cons_iff.mp hsplit.symm with ⟨rfl, hu'⟩ | ⟨above', rfl, rfl⟩
    · obtain ⟨rfl, rfl⟩ := List.cons.inj hu'
      rw [hl] at hu
      exact .inl (hs ▸ h.within_cover hu)
    · rw [hleaves]
      exact h.held (parts ++ above') u lower (by simp) token hu
  · rcases List.append_eq_cons_iff.mp hsplit.symm with ⟨rfl, rfl⟩ | ⟨above', rfl, rfl⟩
    · exact .nil
    · rw [hleaves]
      exact h.inOrder (parts ++ above') lower (by simp)

theorem push (h : Laid stack) {token : Token} (hs : ∀ s ∈ spans stack, Span.Later ⟨token.start, token.stop⟩ s)
    (ho : token.isMissing = false → ∀ x ∈ written (leavesAll stack), x.start.offset < token.start.offset) :
    Laid (.leaf token :: stack) := by
  refine ⟨List.pairwise_cons.mpr ⟨hs, h.ordered⟩, fun above u lower hsplit x hx => ?_,
    fun above lower hsplit => ?_⟩
  · rcases List.append_eq_cons_iff.mp hsplit.symm with ⟨rfl, hu⟩ | ⟨above', rfl, rfl⟩
    · obtain ⟨rfl, rfl⟩ := List.cons.inj hu
      have hx' : x = token := List.mem_singleton.mp (List.mem_of_mem_filter hx)
      subst hx'
      exact .inl ⟨_, rfl, Nat.le_refl _, Nat.le_refl _⟩
    · refine (h.held above' u lower rfl x hx).imp_right fun hx' => ?_
      rw [leavesAll_cons, written_append]
      exact List.mem_append_left _ hx'
  · rcases List.append_eq_cons_iff.mp hsplit.symm with ⟨rfl, rfl⟩ | ⟨above', rfl, rfl⟩
    · exact .nil
    · have hin := h.inOrder above' lower rfl
      rw [leavesAll_cons, written_append, leaves_leaf]
      cases hm : token.isMissing with
      | true => simpa [written, hm] using hin
      | false =>
          have hone : written [token] = [token] := by simp [written, hm]
          rw [hone]
          refine hin.concat fun x hx => ho hm x ?_
          rw [leavesAll_append, written_append]
          exact List.mem_append_right _ hx

/-- An open tree is continued by what comes again above it. -/
theorem extend (h : Laid (above ++ t :: below)) (ht : t.isOpen)
    (hx : InOrder (written (extra.flatMap leaves)))
    (hsub : written (extra.flatMap leaves) ⊆ written (leavesAll above))
    (hall : written (leavesAll above) ⊆ written t.leaves ++ written (extra.flatMap leaves)) :
    Laid (above ++ t.extend extra :: below) := by
  have hleaves := leaves_extend_of_isOpen ht extra
  refine ⟨?_, fun upper u lower hsplit token hu => ?_, fun upper lower hsplit => ?_⟩
  · have ho := h.ordered
    rw [spans_append, spans_cons] at ho ⊢
    rwa [span?_extend]
  · rcases append_eq_split hsplit with ⟨mid, rfl, rfl⟩ | ⟨mid, rfl, hmid⟩
    · exact h.held upper u (mid ++ t :: below) (by simp) token hu
    · rcases List.append_eq_cons_iff.mp hmid.symm with ⟨rfl, hu'⟩ | ⟨mid', rfl, rfl⟩
      · obtain ⟨rfl, rfl⟩ := List.cons.inj hu'
        rw [hleaves, written_append, List.mem_append] at hu
        rw [span?_extend, List.append_nil]
        rcases hu with hu | hu
        · exact h.held above t lower rfl token hu
        · exact .inr (hsub hu)
      · refine (h.held (above ++ t :: mid') u lower (by simp) token hu).imp_right fun hmem => ?_
        simp only [leavesAll_append, leavesAll_cons, hleaves, written_append, List.mem_append] at hmem ⊢
        tauto
  · rcases List.append_eq_append_iff.mp hsplit with ⟨mid, rfl, hmid⟩ | ⟨mid, rfl, rfl⟩
    · rcases List.append_eq_cons_iff.mp hmid.symm with ⟨rfl, rfl⟩ | ⟨mid', rfl, rfl⟩
      · rw [List.append_nil]
        exact h.inOrder above (t :: below) rfl
      · have hin := h.inOrder (above ++ t :: mid') lower (by simp)
        simp only [leavesAll_append, leavesAll_cons, hleaves, written_append, ← List.append_assoc] at hin ⊢
        -- What is added only echoes what lies above, so no first occurrence moves.
        refine hin.echo hx hsub (List.Subset.trans hall ?_)
        rw [List.append_assoc]
        exact List.subset_append_right _ _
    · exact h.inOrder upper (mid ++ t :: below) (by simp)

end Laid

/-! ## Reductions -/

/-- A stack of trees that stand for symbols and lie in order. -/
structure Standing (ss : List Symbol) (stack : List Tree) : Prop where
  stands : List.Forall₂ Stands ss stack
  laid : Laid stack

theorem Standing.fills (h : Standing ss stack) : List.Forall₂ Fills ss stack :=
  h.stands.imp fun _ _ => Stands.fills

theorem Standing.nil : Standing [] [] :=
  ⟨.nil, .nil⟩

theorem stands_node (hp : Splices p) (h : List.Forall₂ Stands p.body parts) {span : Option Span}
    (hw : ∀ token ∈ written (parts.flatMap leaves), Within span token) :
    Stands (.r p.rule) (.node p.rule span (gather p.body parts)) := by
  obtain ⟨hlen, htight⟩ := tight_gather h
  cases hs : p.rule.spliced with
  | true =>
      refine .unfinished hs hs (fun hnil => hp.ne_nil hs ?_) htight
      rw [hnil] at hlen
      exact List.eq_nil_of_length_eq_zero (Nat.le_zero.mp hlen)
  | false =>
      refine .finished hs (.node hs htight ?_)
      rwa [leaves_gather (h.imp fun _ _ => Stands.fills)]

theorem Standing.reduce (hp : Splices p) (h : Standing (p.body.reverse ++ rest) stack) :
    Standing (.r p.rule :: rest) (reduce stack p) := by
  obtain ⟨hparts, hrest⟩ := forall₂_parts h.stands
  have hlaid : Laid (stack.take p.body.length ++ stack.drop p.body.length) := by
    rw [List.take_append_drop]
    exact h.laid
  have hleaves := leaves_build (hparts.imp fun _ _ => Stands.fills)
  rw [Tree.reduce]
  rcases build_cases hp hparts with ⟨t, hone, ht, hr, hb⟩ | hb
  · rw [hb]
    have htake : stack.take p.body.length = [t] := by simpa using congrArg List.reverse hone
    rw [htake] at hlaid
    exact ⟨.cons (.finished hr ht) hrest, hlaid⟩
  · rw [hb] at hleaves ⊢
    exact ⟨.cons (stands_node hp hparts fun _ => hlaid.within_cover) hrest, hlaid.node hleaves rfl⟩

/-- Whether the trees on a stack cover nothing after a place. -/
def Past (place : Position) (stack : List Tree) : Prop :=
  ∀ s ∈ spans stack, Span.Later ⟨place, place⟩ s

theorem Past.reduce {place : Position} (hp : Splices p)
    (hs : List.Forall₂ Stands (p.body.reverse ++ rest) stack) (h : Past place stack) :
    Past place (reduce stack p) := by
  rw [← List.take_append_drop p.body.length stack] at h
  unfold Past at h ⊢
  rw [spans_append, List.forall_mem_append] at h
  rw [Tree.reduce, spans_cons, List.forall_mem_append]
  refine ⟨fun s hmem => ?_, h.2⟩
  rw [Option.mem_toList] at hmem
  rcases build_cases hp (forall₂_parts hs).1 with ⟨t, hone, _, _, hb⟩ | hb
  · have htake : stack.take p.body.length = [t] := by simpa using congrArg List.reverse hone
    rw [hb] at hmem
    exact h.1 s (List.mem_filterMap.mpr ⟨t, by simp [htake], hmem⟩)
  · rw [hb] at hmem
    obtain ⟨first, hf, last, hl, rfl⟩ := exists_of_mem_cover hmem
    exact ⟨(h.1 first hf).1, (h.1 last hl).2⟩

theorem Past.extend {place : Position} (h : Past place (above ++ t :: below)) :
    Past place (above ++ t.extend extra :: below) := by
  unfold Past at h ⊢
  rw [spans_append, spans_cons] at h ⊢
  rwa [span?_extend]

theorem Past.push {place : Position} {token : Token} (h : Past place stack)
    (hline : place.line ≤ token.start.line) (hlines : token.start.line ≤ token.stop.line) :
    Past token.stop (.leaf token :: stack) := by
  refine List.forall_mem_cons.mpr ⟨⟨hlines, Nat.le_refl _⟩, fun s hs => ?_⟩
  obtain ⟨hstart, hstop⟩ := h s hs
  have hle := Nat.le_trans hline hlines
  exact ⟨Nat.le_trans hstart hle, Nat.le_trans hstop hle⟩

end Tree

end Typeahead
