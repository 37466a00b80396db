import Mathlib.Data.List.DropRight
import Typeahead.Text.Newlines

/-!
Lines of a text. They are what stands between line feeds; a caret is given by its line and its column there, or by its
offset in the whole text. An editor has more kinds of line ends.
-/

namespace Typeahead.Text

/-! ## Pieces between marks -/

section Pieces

variable {mark : Char}

theorem splitOn_mark (cs : List Char) : (mark :: cs).splitOn mark = [] :: cs.splitOn mark := by
  simp [List.splitOn_cons_eq_if_modifyHead]

/-- A character that is no mark goes to the first piece. -/
theorem splitOn_of_ne {c : Char} (h : c ≠ mark) (cs : List Char) : ∃ piece pieces,
    cs.splitOn mark = piece :: pieces ∧ (c :: cs).splitOn mark = (c :: piece) :: pieces := by
  obtain ⟨piece, pieces, hpieces⟩ := List.exists_cons_of_ne_nil (List.splitOn_ne_nil mark cs)
  exact ⟨piece, pieces, hpieces, by simp [List.splitOn_cons_eq_if_modifyHead, h, hpieces]⟩

/-- The pieces grow from the end of the text: a mark begins a new one, and any other character goes to the first. -/
theorem splitOn_induct {motive : List Char → List (List Char) → Prop} (nil : motive [] [[]])
    (new : ∀ cs, motive cs (cs.splitOn mark) → motive (mark :: cs) ([] :: cs.splitOn mark))
    (more : ∀ c cs piece pieces, c ≠ mark → motive cs (piece :: pieces) → motive (c :: cs) ((c :: piece) :: pieces))
    (cs : List Char) : motive cs (cs.splitOn mark) := by
  induction cs with
  | nil => exact nil
  | cons c cs ih =>
      by_cases hc : c = mark
      · subst hc
        rw [splitOn_mark]
        exact new cs ih
      · obtain ⟨piece, pieces, hrest, hpieces⟩ := splitOn_of_ne hc cs
        rw [hrest] at ih
        rw [hpieces]
        exact more c cs piece pieces hc ih

theorem notMem_of_mem_splitOn (cs : List Char) : ∀ piece ∈ cs.splitOn mark, mark ∉ piece := by
  refine splitOn_induct (motive := fun _ pieces => ∀ piece ∈ pieces, mark ∉ piece) ?nil ?new ?more cs
  case nil => simp
  case new => exact fun cs ih => List.forall_mem_cons.mpr ⟨List.not_mem_nil, ih⟩
  case more =>
    intro c cs piece pieces hc ih
    rw [List.forall_mem_cons] at ih ⊢
    refine ⟨?_, ih.2⟩
    rw [List.mem_cons, not_or]
    exact ⟨Ne.symm hc, ih.1⟩

theorem length_splitOn (cs : List Char) : (cs.splitOn mark).length = cs.count mark + 1 := by
  refine splitOn_induct (motive := fun cs pieces => pieces.length = cs.count mark + 1) rfl ?new ?more cs
  case new =>
    intro cs ih
    rw [List.length_cons, ih, List.count_cons_self]
  case more =>
    intro c cs piece pieces hc ih
    rw [List.count_cons_of_ne hc, ← ih, List.length_cons, List.length_cons]

theorem head?_splitOn (cs : List Char) : (cs.splitOn mark)[0]? = some (cs.takeWhile (· != mark)) := by
  refine splitOn_induct (motive := fun cs pieces => pieces[0]? = some (cs.takeWhile (· != mark))) rfl ?new ?more cs
  case new => simp
  case more =>
    intro c cs piece pieces hc ih
    rw [List.takeWhile_cons_of_pos (by simpa using hc)]
    simpa using ih

/-- The piece around a place goes from the last mark before it to the first behind it. -/
theorem splitOn_around (mark : Char) (xs ys : List Char) : ((xs ++ ys).splitOn mark)[xs.count mark]? =
    some (xs.rtakeWhile (· != mark) ++ ys.takeWhile (· != mark)) := by
  induction xs using List.reverseRecOn generalizing ys with
  | nil => exact head?_splitOn ys
  | append_singleton xs c ih =>
      by_cases hc : c = mark
      · subst hc
        have hcount : (xs ++ [c]).count c = (xs.splitOn c).length := by simp [length_splitOn]
        rw [List.append_assoc, List.singleton_append, List.splitOn_append_cons_self, hcount,
          List.getElem?_append_right (Nat.le_refl _), Nat.sub_self, head?_splitOn]
        simp
      · have hstep := ih (c :: ys)
        rw [List.takeWhile_cons_of_pos (by simpa using hc)] at hstep
        simpa [hc] using hstep

end Pieces

/-! ## Offsets -/

/-- The offset of a caret, given by its line and its column, both counted from zero: before it are the lines above, with
their ends, and the columns to its left. -/
def offset (cs : List Char) (line column : Nat) : Nat :=
  (((cs.splitOn '\n').take line).flatMap (· ++ ['\n'])).length + column

theorem offset_zero (cs : List Char) (column : Nat) : offset cs 0 column = column := by
  simp [offset]

theorem offset_newline (cs : List Char) (n column : Nat) :
    offset ('\n' :: cs) (n + 1) column = offset cs n column + 1 := by
  simp only [offset, splitOn_mark, List.take_succ_cons, List.flatMap_cons, List.nil_append, List.singleton_append,
    List.length_cons]
  omega

theorem offset_cons {c : Char} (h : c ≠ '\n') (cs : List Char) (n column : Nat) :
    offset (c :: cs) (n + 1) column = offset cs (n + 1) column + 1 := by
  obtain ⟨piece, pieces, hrest, hpieces⟩ := splitOn_of_ne h cs
  simp only [offset, hrest, hpieces, List.take_succ_cons, List.flatMap_cons, List.cons_append, List.length_cons]
  omega

/-! ## Lines of an editor -/

/-- An editor's line begins as the line between line feeds does, if no line end of another kind stands in a line before
it, nor within this beginning. -/
theorem prefix_editorLines {cs line xs : List Char} {n : Nat} (hr : '\r' ∉ cs)
    (hline : (cs.splitOn '\n')[n]? = some line) (hxs : xs <+: line)
    (hplain : ∀ c ∈ ((cs.splitOn '\n').take n).flatten ++ xs.dropLast, isLineEnd c = false) :
    xs <+: ((editorLines cs)[n]?).getD [] := by
  induction cs generalizing line xs n with
  | nil =>
      cases n with
      | zero =>
          cases hline
          simpa [editorLines] using hxs
      | succ n => cases hline
  | cons c cs ih =>
      rw [List.mem_cons, not_or] at hr
      rw [editorLines_cons (Ne.symm hr.1)]
      by_cases hfeed : c = '\n'
      · subst hfeed
        cases n with
        | zero =>
            rw [splitOn_mark, List.getElem?_cons_zero, Option.some.injEq] at hline
            subst hline
            simp [List.prefix_nil.mp hxs]
        | succ n => exact ih hr.2 (by simpa [splitOn_mark] using hline) hxs (by simpa [splitOn_mark] using hplain)
      · obtain ⟨piece, pieces, hrest, hpieces⟩ := splitOn_of_ne hfeed cs
        rw [hpieces] at hline hplain
        rw [hrest] at ih
        cases n with
        | zero =>
            cases hline
            cases xs with
            | nil => exact List.nil_prefix
            | cons x xs =>
                obtain ⟨rfl, htail⟩ := List.cons_prefix_cons.mp hxs
                split
                · -- A line end can only be the last character of the beginning.
                  have hnil : xs = [] := by
                    cases xs with
                    | nil => rfl
                    | cons y xs => simp_all
                  simp [hnil]
                · rw [getD_consLine_zero, List.cons_prefix_cons]
                  refine ⟨rfl, ih hr.2 rfl htail fun d hd => hplain d ?_⟩
                  cases xs with
                  | nil => cases hd
                  | cons y xs => exact List.mem_cons_of_mem _ hd
        | succ n =>
            have hc : isLineEnd c = false := hplain c (by simp)
            rw [hc, if_neg Bool.false_ne_true, getElem?_consLine_succ]
            exact ih hr.2 hline hxs fun d hd => hplain d (List.mem_cons_of_mem _ hd)

end Typeahead.Text
