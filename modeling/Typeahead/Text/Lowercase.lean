import Typeahead.Text.CaseTable
import Typeahead.Text.Chars

/-! Full lower-casing: one letter may become two, and a sigma depends on its neighbours. -/

namespace Typeahead.Text

/-- Whether a code point lies in one of some ranges, ends included. -/
def inRanges (ranges : List (Nat × Nat)) (n : Nat) : Bool :=
  ranges.any fun (lo, hi) => lo ≤ n && n ≤ hi

/-- Whether a character has case. -/
def isCased (c : Char) : Bool :=
  inRanges cased c.toNat

/-- Whether a character is passed over when the end of a word is looked for. -/
def isCaseIgnorable (c : Char) : Bool :=
  inRanges caseIgnorable c.toNat

/-- Whether the first character that counts has case. -/
def meetsCased (cs : List Char) : Bool :=
  (cs.find? fun c => !isCaseIgnorable c).any isCased

/-- The lower-case form of a character other than a capital sigma. -/
def lowerChar (c : Char) : List Char :=
  if inAscii c then
    [c.toLower]
  else if c = '\u0130' then
    ['i', '\u0307']
  else
    match caseRuns.find? (·.holds c.toNat) with
    | some run => [Char.ofNat (c.toNat + run.delta).toNat]
    | none => [c]

/-- The lower-case form of a text; `before` are the characters before it, last first. A capital
sigma at the end of a word has a form of its own. -/
def lowerFrom (before : List Char) : List Char → List Char
  | [] => []
  | c :: cs =>
    let lower :=
      if c = '\u03a3' then
        if meetsCased before && !meetsCased cs then ['\u03c2'] else ['\u03c3']
      else
        lowerChar c
    lower ++ lowerFrom (c :: before) cs

/-- The lower-case form of a text. -/
def lowercase (cs : List Char) : List Char :=
  lowerFrom [] cs

/-- Whether a text is in ASCII. -/
def isAscii (cs : List Char) : Bool :=
  cs.all inAscii

variable {cs : List Char}

/-- In ASCII, lower-casing goes character by character, whatever stands around them. -/
theorem lowerFrom_append (h : isAscii cs) (before rest : List Char) :
    lowerFrom before (cs ++ rest) =
      cs.map Char.toLower ++ lowerFrom (cs.reverse ++ before) rest := by
  induction cs generalizing before with
  | nil => rfl
  | cons c cs ih =>
      simp only [isAscii, List.all_cons, Bool.and_eq_true] at h
      obtain ⟨hc, hcs⟩ := h
      have hsigma : c ≠ '\u03a3' := by
        rintro rfl
        exact absurd hc (by decide)
      rw [List.cons_append, lowerFrom, if_neg hsigma, lowerChar, if_pos hc, ih hcs]
      simp

theorem lowercase_append (h : isAscii cs) (rest : List Char) :
    lowercase (cs ++ rest) = cs.map Char.toLower ++ lowerFrom cs.reverse rest := by
  rw [lowercase, lowerFrom_append h, List.append_nil]

theorem lowercase_eq_map (h : isAscii cs) : lowercase cs = cs.map Char.toLower := by
  have happend := lowercase_append h []
  rwa [List.append_nil, lowerFrom, List.append_nil] at happend

end Typeahead.Text
