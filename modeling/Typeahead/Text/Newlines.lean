/-! Line ends. -/

namespace Typeahead.Text

/-- Writes every carriage return, with the line feed after it if there is one, as a line feed. -/
def unifyNewlines : List Char → List Char
  | [] => []
  | '\r' :: '\n' :: cs => '\n' :: unifyNewlines cs
  | '\r' :: cs => '\n' :: unifyNewlines cs
  | c :: cs => c :: unifyNewlines cs

/-- Whether a character ends a line for an editor. A carriage return and the line feed after it end
one line together. -/
def isLineEnd (c : Char) : Bool :=
  let n := c.toNat
  (0x0a ≤ n && n ≤ 0x0d) || (0x1c ≤ n && n ≤ 0x1e) || n == 0x85 || n == 0x2028 ||
    n == 0x2029

/-- Puts a character before the first line. -/
def consLine (c : Char) : List (List Char) → List (List Char)
  | [] => [[c]]
  | line :: lines => (c :: line) :: lines

/-- The lines of a text as an editor counts them, each with its end. -/
def editorLines : List Char → List (List Char)
  | [] => []
  | '\r' :: '\n' :: cs => ['\r', '\n'] :: editorLines cs
  | c :: cs => if isLineEnd c then [c] :: editorLines cs else consLine c (editorLines cs)

theorem unifyNewlines_of_notMem {cs : List Char} (h : '\r' ∉ cs) : unifyNewlines cs = cs := by
  fun_induction unifyNewlines cs with
  | case1 => rfl
  | case2 | case3 => simp at h
  | case4 c cs _ _ ih => rw [ih fun hr => h (List.mem_cons_of_mem c hr)]

theorem flatten_consLine (c : Char) (lines : List (List Char)) :
    (consLine c lines).flatten = c :: lines.flatten := by
  cases lines <;> rfl

theorem getD_consLine_zero (c : Char) (lines : List (List Char)) :
    ((consLine c lines)[0]?).getD [] = c :: (lines[0]?).getD [] := by
  cases lines <;> rfl

theorem getElem?_consLine_succ (c : Char) (lines : List (List Char)) (n : Nat) :
    (consLine c lines)[n + 1]? = lines[n + 1]? := by
  cases lines <;> rfl

/-- An editor's lines are the whole text. -/
theorem flatten_editorLines (cs : List Char) : (editorLines cs).flatten = cs := by
  fun_induction editorLines cs with
  | case1 => rfl
  | case2 cs ih => simp [ih]
  | case3 c cs _ _ ih => simp [ih]
  | case4 c cs _ _ ih => rw [flatten_consLine, ih]

theorem editorLines_cons {c : Char} (h : c ≠ '\r') (cs : List Char) :
    editorLines (c :: cs) =
      if isLineEnd c then [c] :: editorLines cs else consLine c (editorLines cs) := by
  rw [editorLines]
  simp [h]

end Typeahead.Text
