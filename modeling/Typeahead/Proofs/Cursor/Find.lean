import Mathlib.Data.List.Induction
import Typeahead.Cursor
import Typeahead.Proofs.Parser.Layout

/-!
The search for a caret in a tree. Although it passes over nodes on other lines, and the tree may repeat tokens,
it finds the first token at the caret among those that the parser kept.
-/

namespace Typeahead

open Typeahead.Tree

theorem Caret.le_iff {a b : Caret} : a.le b ↔ a.line < b.line ∨ a.line = b.line ∧ a.column ≤ b.column := by
  simp [Caret.le]

namespace Cursor

variable {c : Caret} {t : Tree} {ts stack : List Tree} {ss : List Symbol}

/-- The first token in reading order that a caret touches. -/
def first? (c : Caret) (tokens : List Token) : Option Token :=
  tokens.find? (·.touches c)

theorem first?_append (c : Caret) (xs ys : List Token) :
    first? c (xs ++ ys) = (first? c xs).or (first? c ys) :=
  List.find?_append

theorem lines_of_touches {token : Token} (h : token.touches c) :
    (token.start.line : Int) ≤ c.line ∧ c.line ≤ (token.stop.line : Int) := by
  rw [Token.touches, Bool.and_eq_true, Caret.le_iff, Caret.le_iff] at h
  simp only [Position.caret] at h
  omega

theorem findAny?_cons (c : Caret) (t : Tree) (ts : List Tree) :
    findAny? c (t :: ts) = (find? c t).or (findAny? c ts) := by
  rw [findAny?]
  cases find? c t <;> rfl

theorem findAny?_eq (h : ∀ t ∈ ts, find? c t = first? c (written t.leaves)) :
    findAny? c ts = first? c (written (ts.flatMap leaves)) := by
  induction ts with
  | nil => rfl
  | cons t ts ih =>
      rw [List.forall_mem_cons] at h
      rw [findAny?_cons, h.1, ih h.2, List.flatMap_cons, written_append, first?_append]

/-- A node that is not passed over is searched; one that is passed over has no token at the caret on its
lines. -/
theorem find?_node (c : Caret) (rule : Rule) (span : Option Span) (children : List Tree) :
    find? c (.node rule span children) = findAny? c children ∨
    (find? c (.node rule span children) = none ∧ ∀ token, Within span token → ¬ token.touches c) := by
  cases span with
  | none => exact .inl (by rw [find?])
  | some s =>
      rw [find?]
      split
      · exact .inl rfl
      · rename_i hn
        refine .inr ⟨rfl, ?_⟩
        rintro token ⟨s', hs, hstart, hstop⟩ htouches
        obtain rfl := Option.some.inj hs
        have hlines := lines_of_touches htouches
        simp only [Bool.and_eq_true, decide_eq_true_eq] at hn
        omega

theorem find?_of_tight (h : Tight t) : find? c t = first? c (written t.leaves) := by
  induction h with
  | leaf token =>
      rw [find?, leaves_leaf, first?, written]
      cases hm : token.isMissing <;> cases ht : token.touches c <;> simp [hm, ht]
  | @node rule span children _ _ hw ih =>
      have hany := findAny?_eq ih
      rw [leaves_node]
      rcases find?_node c rule span children with hf | ⟨hf, hn⟩
      · rw [hf, hany]
      · rw [hf, eq_comm, first?, List.find?_eq_none]
        exact fun token hmem => hn token (hw token hmem)

theorem find?_of_stands {s : Symbol} (h : Stands s t) :
    find? c t = first? c (written t.leaves) ∨
    (find? c t = none ∧ ∀ token, Within t.span? token → ¬ token.touches c) := by
  cases h with
  | finished _ ht => exact .inl (find?_of_tight ht)
  | @unfinished rule span children _ _ _ hc =>
      have hany := findAny?_eq fun t ht => find?_of_tight (c := c) (hc t ht)
      rw [leaves_node, ← hany]
      exact find?_node c rule span children

/-- A tree on a stack that is passed over hides no token, as its tokens at the caret come again above it. -/
theorem findAny?_of_standing (h : Standing ss stack) :
    findAny? c stack.reverse = first? c (written (leavesAll stack)) := by
  have hupper (above below : List Tree) (hsplit : stack = above ++ below) :
      findAny? c above.reverse = first? c (written (leavesAll above)) := by
    induction above using List.reverseRecOn generalizing below with
    | nil => rfl
    | append_singleton above t ih =>
        rw [List.append_assoc, List.singleton_append] at hsplit
        have hin := h.laid.inOrder (above ++ [t]) below (by simp [hsplit])
        have hleaves : leavesAll (above ++ [t]) = t.leaves ++ leavesAll above := by simp [leavesAll]
        obtain ⟨s, hst⟩ : ∃ s, Stands s t := by
          have hdrop := List.forall₂_drop above.length h.stands
          rw [hsplit, List.drop_left] at hdrop
          obtain ⟨s, _, hst, _⟩ := List.forall₂_cons_right_iff.mp hdrop
          exact ⟨s, hst⟩
        rw [List.reverse_append, List.reverse_singleton, List.singleton_append, findAny?_cons, ih _ hsplit]
        rw [hleaves, written_append] at hin ⊢
        rcases find?_of_stands (c := c) hst with hf | ⟨hf, hn⟩
        · rw [hf, first?_append]
        · rw [hf, Option.none_or]
          refine InOrder.find?_eq (h.laid.inOrder above _ hsplit) hin fun x hx => ⟨?_, fun hmem => ?_⟩
          · exact List.mem_append_right _
          · rcases List.mem_append.mp hmem with hmem | hmem
            · exact (h.laid.held above t below hsplit x hmem).resolve_left fun hw => hn x hw hx
            · exact hmem
  exact hupper stack [] (by simp)

theorem find?_of_ordered (h : t.Ordered) :
    find? c t = first? c (written t.leaves) ∧ InOrder (written t.leaves) := by
  rcases h with ⟨ht, hin⟩ | ⟨ss, stack, hst, rfl⟩
  · exact ⟨find?_of_tight ht, hin⟩
  · rw [leaves_node]
    refine ⟨?_, hst.laid.inOrder stack [] (by simp)⟩
    rw [find?]
    exact findAny?_of_standing hst

end Cursor

theorem inOrder_kept (text : String) : InOrder (kept (outcomesOf text)) := by
  rw [kept_outcomesOf]
  exact .of_pairwise (((pairwise_tokenize text).filter _).filter _)

/-- The search in the tree of a text finds the first token at the caret that the parser kept. -/
theorem find?_parse (text : String) (c : Caret) :
    Cursor.find? c (parse text).tree = Cursor.first? c (kept (outcomesOf text)) := by
  obtain ⟨hfind, hin⟩ := Cursor.find?_of_ordered (c := c) (ordered_parse text)
  rw [hfind]
  exact hin.find?_eq (inOrder_kept text) fun _ _ => mem_written_leaves_parse

end Typeahead
