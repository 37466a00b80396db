/-! Tests on characters, and cutting a text at one. -/

namespace Typeahead.Text

/-- Whether a character is in ASCII. -/
def inAscii (c : Char) : Bool :=
  c.toNat < 0x80

/-- The value of a hexadecimal digit, of either case. -/
def hexDigit? (c : Char) : Option Nat :=
  if c.isDigit then some (c.toNat - '0'.toNat)
  else if 'a' ≤ c ∧ c ≤ 'f' then some (c.toNat - 'a'.toNat + 10)
  else if 'A' ≤ c ∧ c ≤ 'F' then some (c.toNat - 'A'.toNat + 10)
  else none

/-- Whether a character is a hexadecimal digit. -/
def isHex (c : Char) : Bool :=
  (hexDigit? c).isSome

/-- The part before the first character that satisfies a test, and the rest from it on. -/
def cut (p : Char → Bool) (cs : List Char) : List Char × List Char :=
  (cs.takeWhile (!p ·), cs.dropWhile (!p ·))

end Typeahead.Text
