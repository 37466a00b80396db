import Mathlib.Data.List.Forall2
import Typeahead.Parser

/-!
The leaves of a tree. A tree that is built from parts has the leaves of the parts, in order, as long as
every part of a spliced rule is a node.
-/

namespace Typeahead.Tree

mutual

theorem subtrees_preorder (depth : Nat) : (t : Tree) → (t.preorder depth).map Prod.snd = t.subtrees
  | .leaf token => rfl
  | .node rule span children => by
      rw [subtrees, preorder, preorder, List.map_cons, List.map_cons, subtrees_preorderAll (depth + 1) children,
        subtrees_preorderAll (0 + 1) children]

theorem subtrees_preorderAll (depth : Nat) : (ts : List Tree) →
    (preorderAll depth ts).map Prod.snd = ts.flatMap subtrees
  | [] => rfl
  | t :: ts => by
      rw [preorderAll, List.map_append, subtrees_preorder depth t, subtrees_preorderAll depth ts, List.flatMap_cons]

end

theorem subtrees_node (rule : Rule) (span : Option Span) (children : List Tree) :
    (node rule span children).subtrees = node rule span children :: children.flatMap subtrees := by
  rw [subtrees, preorder, List.map_cons, subtrees_preorderAll (0 + 1) children]

@[simp] theorem leaves_leaf (token : Token) : (leaf token).leaves = [token] := rfl

@[simp] theorem leaves_node (rule : Rule) (span : Option Span) (children : List Tree) :
    (node rule span children).leaves = children.flatMap leaves := by
  rw [leaves, subtrees_node, List.filterMap_cons_none rfl, List.filterMap_flatMap]
  rfl

theorem leaves_children {t : Tree} (h : t.token? = none) : t.children.flatMap leaves = t.leaves := by
  cases t with
  | leaf token => cases h
  | node rule span children => rw [leaves_node]; rfl

theorem leaves_of_mem_children {t c : Tree} (h : c ∈ t.children) : c.leaves ⊆ t.leaves := by
  cases t with
  | leaf token => cases h
  | node rule span children =>
      rw [leaves_node]
      exact fun token htoken => List.mem_flatMap.mpr ⟨c, h, htoken⟩

theorem names_subset_leaves (t : Tree) : t.names ⊆ t.leaves := by
  intro token h
  obtain ⟨child, hchild, htoken⟩ := List.mem_filterMap.mp (List.mem_of_mem_filter h)
  refine leaves_of_mem_children hchild ?_
  cases child with
  | leaf token => simpa [token?, eq_comm] using htoken
  | node rule span children => cases htoken

mutual

theorem leaves_of_mem_subtrees : (t : Tree) → ∀ s ∈ t.subtrees, s.leaves ⊆ t.leaves
  | .leaf token, s, h => by
      obtain rfl : s = .leaf token := List.mem_singleton.mp h
      exact List.Subset.refl _
  | .node rule span children, s, h => by
      rw [subtrees_node, List.mem_cons] at h
      rcases h with rfl | h
      · exact List.Subset.refl _
      · rw [leaves_node]
        exact leaves_of_mem_subtreesAll children s h

theorem leaves_of_mem_subtreesAll : (ts : List Tree) → ∀ s ∈ ts.flatMap subtrees, s.leaves ⊆ ts.flatMap leaves
  | [], s, h => by cases h
  | t :: ts, s, h => by
      rw [List.flatMap_cons, List.mem_append] at h
      rw [List.flatMap_cons]
      rcases h with h | h
      · exact List.subset_append_of_subset_left _ (leaves_of_mem_subtrees t s h)
      · exact List.subset_append_of_subset_right _ (leaves_of_mem_subtreesAll ts s h)

end

theorem leaves_extend (extra : List Tree) (t : Tree) :
    (t.extend extra).leaves = t.leaves ∨
    (t.extend extra).leaves = t.leaves ++ extra.flatMap leaves := by
  cases t with
  | leaf token => exact .inl rfl
  | node rule span children => exact .inr (by simp [extend])

theorem leaves_extend_of_node {t : Tree} (h : t.token? = none) (extra : List Tree) :
    (t.extend extra).leaves = t.leaves ++ extra.flatMap leaves := by
  cases t with
  | leaf token => cases h
  | node rule span children => simp [extend]

/-! ## Trees over symbols -/

/-- Whether a tree can stand for a symbol: what holds a spliced rule can take over its children. -/
def Fills (s : Symbol) (t : Tree) : Prop :=
  s.spliced → t.token? = none

theorem Fills.extend {s : Symbol} {t : Tree} (h : Fills s t) (extra : List Tree) :
    Fills s (t.extend extra) := by
  intro hs
  cases t with
  | leaf token => exact h hs
  | node rule span children => rfl

theorem leaves_share {s : Symbol} {t : Tree} (h : Fills s t) :
    (share (s, t)).flatMap leaves = t.leaves := by
  by_cases hs : s.spliced
  · simp [share, hs, leaves_children (h hs)]
  · simp [share, hs]

theorem leaves_gather {symbols : List Symbol} {parts : List Tree}
    (h : List.Forall₂ Fills symbols parts) :
    (gather symbols parts).flatMap leaves = parts.flatMap leaves := by
  induction h with
  | nil => rfl
  | cons hf _ ih =>
      rw [gather] at ih ⊢
      rw [List.zip_cons_cons, List.flatMap_cons, List.flatMap_append, leaves_share hf, ih,
        List.flatMap_cons]

theorem not_collapses_of_spliced {r : Rule} (h : r.spliced) : r.collapses = false := by
  cases r <;> first | rfl | cases h

/-- A tree is the only child that its rule collapses to, or a node. -/
theorem collapsed_or_node (p : Production) (parts : List Tree) :
    (p.rule.collapses ∧ gather p.body parts = [build p parts]) ∨
    build p parts = .node p.rule (cover parts) (gather p.body parts) := by
  rw [build]
  split
  · rename_i child hc hg
    exact .inl ⟨hc, hg⟩
  · exact .inr rfl

/-- A tree has the leaves of its parts. -/
theorem leaves_build {p : Production} {parts : List Tree} (h : List.Forall₂ Fills p.body parts) :
    (build p parts).leaves = parts.flatMap leaves := by
  rw [← leaves_gather h]
  rcases collapsed_or_node p parts with ⟨_, hg⟩ | hb
  · simp [hg]
  · rw [hb, leaves_node]

theorem fills_build (p : Production) (parts : List Tree) : Fills (.r p.rule) (build p parts) := by
  intro hs
  have hc := not_collapses_of_spliced hs
  simp [build, hc, token?]

/-! ## Stacks of trees -/

/-- The leaves of a stack of trees, top first. -/
def leavesAll (stack : List Tree) : List Token :=
  stack.reverse.flatMap leaves

theorem leavesAll_append (above below : List Tree) :
    leavesAll (above ++ below) = leavesAll below ++ leavesAll above := by
  simp [leavesAll]

theorem leavesAll_cons (t : Tree) (stack : List Tree) :
    leavesAll (t :: stack) = leavesAll stack ++ t.leaves := by
  simp [leavesAll]

/-- The leaves of a stack without those of its lowest trees. -/
def leavesFrom (i : Nat) (stack : List Tree) : List Token :=
  (stack.reverse.drop i).flatMap leaves

@[simp] theorem leavesFrom_zero (stack : List Tree) : leavesFrom 0 stack = leavesAll stack := rfl

theorem leavesFrom_append (i : Nat) (above below : List Tree) :
    leavesFrom i (above ++ below) = leavesFrom i below ++ leavesFrom (i - below.length) above := by
  simp [leavesFrom, List.drop_append]

theorem leavesFrom_of_le {i : Nat} {stack : List Tree} (h : stack.length ≤ i) :
    leavesFrom i stack = [] := by
  simp [leavesFrom, List.drop_eq_nil_of_le, h]

theorem leavesFrom_above (above : List Tree) (t : Tree) (below : List Tree) :
    leavesFrom (below.length + 1) (above ++ t :: below) = leavesAll above := by
  rw [leavesFrom_append, leavesFrom_of_le (by simp), List.nil_append, List.length_cons, Nat.sub_self,
    leavesFrom_zero]

/-- The parts of a body that lies on a stack, and what lies below. -/
theorem forall₂_parts {R : Symbol → Tree → Prop} {p : Production} {rest : List Symbol} {stack : List Tree}
    (h : List.Forall₂ R (p.body.reverse ++ rest) stack) :
    List.Forall₂ R p.body (stack.take p.body.length).reverse ∧
    List.Forall₂ R rest (stack.drop p.body.length) := by
  have htake := List.forall₂_take p.body.length h
  have hdrop := List.forall₂_drop p.body.length h
  rw [List.take_left' (List.length_reverse ..)] at htake
  rw [List.drop_left' (List.length_reverse ..)] at hdrop
  exact ⟨by simpa using List.rel_reverse htake, hdrop⟩

theorem forall₂_replace {R : Symbol → Tree → Prop} {ss : List Symbol} {above below : List Tree} {t t' : Tree}
    (h : List.Forall₂ R ss (above ++ t :: below)) (ht : ∀ s, R s t → R s t') :
    List.Forall₂ R ss (above ++ t' :: below) := by
  induction above generalizing ss with
  | nil =>
      cases h with
      | cons hr hb => exact .cons (ht _ hr) hb
  | cons a above ih =>
      cases h with
      | cons hr hb => exact .cons hr (ih hb)

theorem fills_reduce {p : Production} {rest : List Symbol} {stack : List Tree}
    (h : List.Forall₂ Fills (p.body.reverse ++ rest) stack) :
    List.Forall₂ Fills (.r p.rule :: rest) (reduce stack p) :=
  .cons (fills_build _ _) (forall₂_parts h).2

/-- A reduction keeps the leaves. -/
theorem leavesAll_reduce {p : Production} {rest : List Symbol} {stack : List Tree}
    (h : List.Forall₂ Fills (p.body.reverse ++ rest) stack) :
    leavesAll (reduce stack p) = leavesAll stack := by
  rw [reduce, leavesAll_cons, leaves_build (forall₂_parts h).1]
  conv_rhs => rw [← List.take_append_drop p.body.length stack, leavesAll_append]
  rfl

/-- Nor does it change the leaves from a height that it does not reach below. -/
theorem leavesFrom_reduce {p : Production} {rest : List Symbol} {stack : List Tree} {i : Nat}
    (h : List.Forall₂ Fills (p.body.reverse ++ rest) stack) (hi : i ≤ (stack.drop p.body.length).length) :
    leavesFrom i (reduce stack p) = leavesFrom i stack := by
  rw [reduce, ← List.singleton_append, leavesFrom_append, Nat.sub_eq_zero_of_le hi, leavesFrom_zero,
    leavesAll_cons, leaves_build (forall₂_parts h).1]
  conv_rhs => rw [← List.take_append_drop p.body.length stack, leavesFrom_append, Nat.sub_eq_zero_of_le hi]
  rfl

theorem leavesFrom_reduce_subset {p : Production} {rest : List Symbol} {stack : List Tree}
    (h : List.Forall₂ Fills (p.body.reverse ++ rest) stack) (i : Nat) :
    leavesFrom i (reduce stack p) ⊆ leavesFrom i stack := by
  rcases Nat.lt_or_ge (stack.drop p.body.length).length i with hi | hi
  · have hlen : (reduce stack p).length ≤ i := hi
    rw [leavesFrom_of_le hlen]
    exact List.nil_subset _
  · rw [leavesFrom_reduce h hi]
    exact List.Subset.refl _

end Typeahead.Tree
