import Typeahead.Text.Printable

/-! Texts as they are shown in messages: between quotes, on one line, every character visible. -/

namespace Typeahead.Text

/-- The last `width` hexadecimal digits of a number. -/
def hex (width n : Nat) : List Char :=
  let digits := Nat.toDigits 16 n
  List.replicate (width - digits.length) '0' ++ digits

/-- The shortest escape that holds a code point. -/
def escape (n : Nat) : List Char :=
  if n < 0x100 then
    '\\' :: 'x' :: hex 2 n
  else if n < 0x10000 then
    '\\' :: 'u' :: hex 4 n
  else
    '\\' :: 'U' :: hex 8 n

/-- One character between the given quotes. -/
def quoteChar (quote c : Char) : List Char :=
  if c = quote ∨ c = '\\' then
    ['\\', c]
  else if c = '\n' then
    ['\\', 'n']
  else if c = '\r' then
    ['\\', 'r']
  else if c = '\t' then
    ['\\', 't']
  else if isPrintable c then
    [c]
  else
    escape c.toNat

/-- Apostrophes quote a text, unless it holds one and no double quote. -/
def quoteMark (cs : List Char) : Char :=
  if cs.contains '\'' && !cs.contains '"' then '"' else '\''

/-- A text between quotes. -/
def quoted (s : String) : String :=
  let cs := s.toList
  let mark := quoteMark cs
  String.ofList (mark :: cs.flatMap (quoteChar mark) ++ [mark])

/-- Code points between quotes. One that is no character is written as an escape. -/
def quotedPoints (points : List Nat) : String :=
  let mark := quoteMark ((points.filter (·.isValidChar)).map Char.ofNat)
  let written := points.flatMap fun n =>
    if n.isValidChar then quoteChar mark (Char.ofNat n) else escape n
  String.ofList (mark :: written ++ [mark])

end Typeahead.Text
