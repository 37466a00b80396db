/-! The shortest decimals that identify floating-point numbers. -/

namespace Typeahead.Text

/-- A positive floating-point number `mantissa * 2 ^ exponent`. -/
structure Binary where
  mantissa : Nat
  exponent : Int
  /-- Whether the number below is only half as far away as the number above. -/
  narrowBelow : Bool

/-- The number `digits * 10 ^ exponent`. -/
structure Decimal where
  digits : Nat
  exponent : Int

namespace Binary

/-- The magnitude of a finite number. -/
def ofFloat (x : Float) : Binary :=
  let bits := x.toBits
  let exponent := ((bits >>> 52) &&& 0x7ff).toNat
  let fraction := (bits &&& 0xfffffffffffff).toNat
  if exponent = 0 then ⟨fraction, -1074, false⟩
  else ⟨Nat.pow 2 52 + fraction, (exponent : Int) - 1075, fraction == 0 && 1 < exponent⟩

/-- The whole number that a magnitude is, if it is one. -/
def natural? (b : Binary) : Option Nat :=
  let divisor := Nat.pow 2 (-b.exponent).toNat
  if b.mantissa % divisor = 0 then some (b.mantissa / divisor * Nat.pow 2 b.exponent.toNat) else none

/-- How a decimal compares with a quarter of `quarters * 2 ^ b.exponent`. -/
def compareQuarters (b : Binary) (d : Decimal) (quarters : Nat) : Ordering :=
  compare (4 * d.digits * Nat.pow 10 d.exponent.toNat * Nat.pow 2 (-b.exponent).toNat)
    (quarters * Nat.pow 2 b.exponent.toNat * Nat.pow 10 (-d.exponent).toNat)

/-- Whether a decimal is nearer to this number than to its neighbours. Halfway between two numbers
it belongs to the one with the even mantissa. -/
def readsBack (b : Binary) (d : Decimal) : Bool :=
  let below := b.compareQuarters d (4 * b.mantissa - if b.narrowBelow then 1 else 2)
  let above := b.compareQuarters d (4 * b.mantissa + 2)
  let even := b.mantissa % 2 == 0
  (below == .gt || (even && below == .eq)) && (above == .lt || (even && above == .eq))

/-- The least power of ten above the number, as its exponent. -/
def scale (b : Binary) : Int :=
  let whole := b.mantissa * Nat.pow 2 b.exponent.toNat
  let divisor := Nat.pow 2 (-b.exponent).toNat
  if divisor ≤ whole then
    ((Nat.toDigits 10 (whole / divisor)).length : Int)
  else
    1 - (((List.range 400).find? fun j => divisor ≤ whole * Nat.pow 10 j).getD 0 : Int)

/-- The decimal of a given number of digits nearest to the number, if it reads back. -/
def nearest? (b : Binary) (length : Nat) : Option Decimal :=
  let exponent := b.scale - length
  let value := b.mantissa * Nat.pow 2 b.exponent.toNat * Nat.pow 10 (-exponent).toNat
  let unit := Nat.pow 2 (-b.exponent).toNat * Nat.pow 10 exponent.toNat
  let low : Decimal := ⟨value / unit, exponent⟩
  let high : Decimal := ⟨value / unit + 1, exponent⟩
  match b.readsBack low, b.readsBack high with
  | true, true =>
    match compare (2 * (value % unit)) unit with
    | .lt => some low
    | .gt => some high
    | .eq => some (if low.digits % 2 == 0 then low else high)
  | true, false => some low
  | false, true => some high
  | false, false => none

/-- The shortest decimal that reads back. Seventeen digits always do. -/
def shortest (b : Binary) : Decimal :=
  ((List.range 17).findSome? fun n => b.nearest? (n + 1)).getD ⟨0, 0⟩

end Binary

/-- The digits of a decimal without zeros at the end, and the exponent of the first one. -/
def Decimal.significant (d : Decimal) : List Char × Int :=
  let digits := Nat.toDigits 10 d.digits
  ((digits.reverse.dropWhile (· == '0')).reverse, d.exponent + digits.length - 1)

/-- Digits written out if the first one stands at most four places behind the point or sixteen
before it, else with an exponent of at least two digits. -/
def layOut (digits : List Char) (exponent : Int) : List Char :=
  if -4 ≤ exponent ∧ exponent < 0 then
    '0' :: '.' :: List.replicate (-exponent - 1).toNat '0' ++ digits
  else if 0 ≤ exponent ∧ exponent < 16 then
    let whole := exponent.toNat + 1
    let fraction := digits.drop whole
    digits.take whole ++ List.replicate (whole - digits.length) '0' ++
      '.' :: (if fraction.isEmpty then ['0'] else fraction)
  else
    let power := Nat.toDigits 10 exponent.natAbs
    let fraction := digits.drop 1
    digits.take 1 ++ (if fraction.isEmpty then [] else '.' :: fraction) ++
      'e' :: (if exponent < 0 then '-' else '+') :: List.replicate (2 - power.length) '0' ++ power

/-- A floating-point number in the fewest digits that identify it. -/
def shownFloat (x : Float) : String :=
  if x.isNaN then
    "nan"
  else
    let magnitude :=
      if x.isInf then "inf"
      else if x == 0 then "0.0"
      else
        let (digits, exponent) := (Binary.ofFloat x).shortest.significant
        String.ofList (layOut digits exponent)
    if x.toBits >>> 63 == 0 then magnitude else "-" ++ magnitude

end Typeahead.Text
