import Typeahead.Settings.Yaml.Error
import Typeahead.Text.Chars

/-! What a scalar stands for. -/

namespace Typeahead.Yaml

/-- What a scalar stands for. -/
inductive Scalar where
  | value (v : Value)
  /-- It looks like a number or a timestamp, but there is no such one. -/
  | fault (error : Error)
  /-- As a key, `<<` stands for the entries of the mappings that are its value. -/
  | merge
  /-- As a key, `=` is a text. -/
  | equals

/-- A number in a base from its digits. -/
def ofDigits (base : Nat) (cs : List Char) : Nat :=
  cs.foldl (fun n c => n * base + (Text.hexDigit? c).getD 0) 0

/-- A number in a base as it is written; underscores between the digits do not count. -/
def numeral (base : Nat) (cs : List Char) : Except Error Nat :=
  let digits := cs.filter (· != '_')
  if digits.isEmpty then .error (.numeral base)
  else if base = 10 ∧ Value.longestNumber < digits.length then .error (.digits digits.length)
  else .ok (ofDigits base digits)

/-- Whether a text is made of some characters and underscores. -/
def isNumeral (p : Char → Bool) (cs : List Char) : Bool :=
  !cs.isEmpty && cs.all fun c => p c || c == '_'

/-- Whether a text is made of digits and underscores and starts with a digit. -/
def isWhole (cs : List Char) : Bool :=
  cs.head?.any Char.isDigit && isNumeral Char.isDigit cs

/-- A part of a number in base sixty: one digit, or two of which the first is below six. -/
def isSixtieth : List Char → Bool
  | [d] => d.isDigit
  | [t, d] => '0' ≤ t && t ≤ '5' && d.isDigit
  | _ => false

/-- A whole number in base sixty, from its parts. -/
def sixtieths (parts : List (List Char)) : Except Error Nat :=
  parts.foldlM (fun n part => return n * 60 + (← numeral 10 part)) 0

/-- A whole number without its sign: binary after `0b`, hexadecimal after `0x`, octal after `0`,
in base sixty with colons, else decimal. -/
def natural? (cs : List Char) : Option (Except Error Nat) :=
  match cs with
  | ['0'] => some (.ok 0)
  | '0' :: 'b' :: ds =>
    if isNumeral (fun c => c == '0' || c == '1') ds then some (numeral 2 ds) else none
  | '0' :: 'x' :: ds => if isNumeral Text.isHex ds then some (numeral 16 ds) else none
  | '0' :: ds => if isNumeral (fun c => '0' ≤ c && c ≤ '7') ds then some (numeral 8 cs) else none
  | _ =>
    match cs.splitOn ':' with
    | [] => none
    | whole :: parts =>
      if isWhole whole && parts.all isSixtieth then some (sixtieths (whole :: parts)) else none

/-- A text without its sign, and whether that was a minus. -/
def unsigned : List Char → Bool × List Char
  | '-' :: cs => (true, cs)
  | '+' :: cs => (false, cs)
  | cs => (false, cs)

/-- A whole number with an optional sign. -/
def integer? (cs : List Char) : Option (Except Error Int) :=
  let (negative, cs) := unsigned cs
  (natural? cs).map (·.map fun n => if negative then -(n : Int) else n)

/-- The exponent at the end of a decimal: none, or `e` with a sign and digits. -/
def exponent? : List Char → Option Int
  | [] => some 0
  | e :: sign :: ds =>
    if (e == 'e' || e == 'E') && (sign == '+' || sign == '-') && !ds.isEmpty &&
        ds.all Char.isDigit then
      some (if sign == '-' then -(ofDigits 10 ds : Int) else ofDigits 10 ds)
    else
      none
  | _ => none

/-- The floating-point number nearest to `digits * 10 ^ exponent`. Beyond some size all are infinite
or zero. -/
def nearest (digits : List Char) (exponent : Int) : Float :=
  let mantissa := ofDigits 10 digits
  let size := exponent + digits.length
  if mantissa = 0 ∨ size < -400 then 0
  else if (digits.dropWhile (· == '0')).length + exponent > 400 then 1 / 0
  else Float.ofScientific mantissa (exponent < 0) exponent.natAbs

/-- The number with some digits before and some behind the point. -/
def decimal (whole fraction : List Char) (exponent : Int) : Float :=
  let whole := whole.filter (· != '_')
  let fraction := fraction.filter (· != '_')
  nearest (whole ++ fraction) (exponent - fraction.length)

/-- The floating-point number nearest to a whole number. Those that would round to more than the
largest one have none. -/
def weight (n : Nat) : Except Error Float :=
  if n < Nat.pow 2 1024 - Nat.pow 2 970 then .ok n.toFloat else .error .weight

/-- A number in base sixty, from its parts before the last and that one. -/
def fractionalSixtieths (greater : List (List Char)) (least : Float) : Except Error Float :=
  greater.reverse.zipIdx.foldlM (fun x (part, i) => do
    return x + decimal part [] 0 * (← weight (Nat.pow 60 (i + 1)))) (0 + least)

/-- A number with a point and without its sign, perhaps in base sixty. Without digits before the
point it has no sign. -/
def fractional? (signed : Bool) (cs : List Char) : Option (Except Error Float) := do
  let (front, behind) := Text.cut (· == '.') cs
  let (fraction, tail) := Text.cut (fun c => !(c.isDigit || c == '_')) (← behind.tail?)
  match front.splitOn ':' with
  | [] => none
  | [whole] =>
    if isWhole whole || (whole.isEmpty && !signed && isWhole fraction) then
      some (.ok (decimal whole fraction (← exponent? tail)))
    else
      none
  | whole :: parts =>
    if isWhole whole && parts.all isSixtieth && tail.isEmpty then
      some (fractionalSixtieths (whole :: parts.dropLast)
        (decimal (parts.getLast?.getD []) fraction 0))
    else
      none

/-- A floating-point number with an optional sign. -/
def float? (cs : List Char) : Option (Except Error Float) :=
  let (negative, rest) := unsigned cs
  let magnitude :=
    if [".inf", ".Inf", ".INF"].contains (String.ofList rest) then some (.ok (1 / 0))
    else fractional? (rest.length < cs.length) rest
  if [".nan", ".NaN", ".NAN"].contains (String.ofList cs) then some (.ok (0 / 0))
  else magnitude.map (·.map fun x => if negative then -x else x)

/-- The words for true, for false and for nothing. -/
def yesWords : List String :=
  ["true", "True", "TRUE", "yes", "Yes", "YES", "on", "On", "ON"]

@[inherit_doc yesWords]
def noWords : List String :=
  ["false", "False", "FALSE", "no", "No", "NO", "off", "Off", "OFF"]

@[inherit_doc yesWords]
def nullWords : List String :=
  ["", "~", "null", "Null", "NULL"]

namespace Scalar

/-- A value or why there is none. -/
def ofResult : Except Error Value → Scalar
  | .ok v => .value v
  | .error e => .fault e

/-- A timestamp, if there is such a one. -/
def ofTimestamp (t : Timestamp) : Scalar :=
  match t.fault? with
  | none => .value (.timestamp t)
  | some e => .fault (.timestamp e)

/-- What a scalar without quotes stands for. -/
def ofPlain (cs : List Char) : Scalar :=
  let s := String.ofList cs
  if nullWords.contains s then .value .null
  else if yesWords.contains s then .value (.bool true)
  else if noWords.contains s then .value (.bool false)
  else if s = "<<" then .merge
  else if s = "=" then .equals
  else
    match integer? cs, float? cs, Timestamp.ofText? cs with
    | some n, _, _ => ofResult (n.map .int)
    | none, some x, _ => ofResult (x.map .float)
    | none, none, some t => ofTimestamp t
    | none, none, none => .value (.str s)

/-- What a scalar stands for as a key. -/
def asKey : Scalar → Scalar
  | .equals => .value (.str "=")
  | s => s

/-- The value of a scalar. The marks have no value of their own. -/
def toValue : Scalar → Except Error Value
  | .value v => .ok v
  | .fault e => .error e
  | .merge | .equals => .error .malformed

end Scalar

end Typeahead.Yaml
