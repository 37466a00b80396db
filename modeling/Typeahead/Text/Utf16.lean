/-! Lengths in UTF-16 units, in which editors count. -/

namespace Typeahead.Text

/-- The number of UTF-16 units of a character. -/
def units (c : Char) : Nat :=
  if c.toNat < 0x10000 then 1 else 2

/-- The number of UTF-16 units of a text. -/
def unitLength : List Char → Nat
  | [] => 0
  | c :: cs => units c + unitLength cs

/-- How many characters it takes to pass at least `n` units; all of them if there are fewer. -/
def charsWithin (n : Nat) : List Char → Nat
  | [] => 0
  | c :: cs => if n = 0 then 0 else 1 + charsWithin (n - units c) cs

theorem units_pos (c : Char) : 0 < units c := by
  unfold units
  split <;> decide

theorem unitLength_append (xs ys : List Char) :
    unitLength (xs ++ ys) = unitLength xs + unitLength ys := by
  induction xs with
  | nil => simp [unitLength]
  | cons c xs ih => simp [unitLength, ih, Nat.add_assoc]

/-- As many units as some characters have are passed with exactly these characters. -/
theorem charsWithin_unitLength (xs ys : List Char) :
    charsWithin (unitLength xs) (xs ++ ys) = xs.length := by
  induction xs with
  | nil => cases ys <;> simp [charsWithin, unitLength]
  | cons c xs ih =>
      have hunits : units c + unitLength xs ≠ 0 := by
        have := units_pos c
        omega
      rw [List.cons_append, charsWithin, unitLength, if_neg hunits, Nat.add_sub_cancel_left, ih,
        List.length_cons, Nat.add_comm]

end Typeahead.Text
