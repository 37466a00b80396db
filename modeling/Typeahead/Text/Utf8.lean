/-! Reading bytes as UTF-8, with an exact account of what is wrong with bytes that are not. -/

namespace Typeahead.Utf8

/-- Why some bytes are no text. -/
inductive Reason where
  | invalidStart
  | invalidContinuation
  | unexpectedEnd
  deriving DecidableEq, Repr

namespace Reason

/-- The wording of a reason. -/
def message : Reason → String
  | .invalidStart => "invalid start byte"
  | .invalidContinuation => "invalid continuation byte"
  | .unexpectedEnd => "unexpected end of data"

end Reason

/-- The first bytes that are no text: where they start, how many there are, the first of them, and
what is wrong. -/
structure Fault where
  position : Nat
  length : Nat
  byte : UInt8
  reason : Reason
  deriving DecidableEq, Repr

namespace Fault

/-- Two hexadecimal digits. -/
def hexByte (b : UInt8) : String :=
  let digits := Nat.toDigits 16 b.toNat
  String.ofList (List.replicate (2 - digits.length) '0' ++ digits)

/-- How a fault is reported. -/
def message (f : Fault) : String :=
  let place :=
    if f.length ≤ 1 then
      "byte 0x" ++ hexByte f.byte ++ " in position " ++ toString f.position
    else
      "bytes in position " ++ toString f.position ++ "-" ++ toString (f.position + f.length - 1)
  "'utf-8' codec can't decode " ++ place ++ ": " ++ f.reason.message

end Fault

/-- The bytes that may follow a first byte: the range of the second, and how many there are. -/
def continuation? (b : UInt8) : Option (Nat × Nat × Nat) :=
  let n := b.toNat
  if 0xc2 ≤ n ∧ n ≤ 0xdf then some (0x80, 0xbf, 1)
  else if n = 0xe0 then some (0xa0, 0xbf, 2)
  else if n = 0xed then some (0x80, 0x9f, 2)
  else if 0xe1 ≤ n ∧ n ≤ 0xef then some (0x80, 0xbf, 2)
  else if n = 0xf0 then some (0x90, 0xbf, 3)
  else if 0xf1 ≤ n ∧ n ≤ 0xf3 then some (0x80, 0xbf, 3)
  else if n = 0xf4 then some (0x80, 0x8f, 3)
  else none

/-- The payload of a first byte that is followed by `count` others. -/
def leadBits (count : Nat) (b : UInt8) : Nat :=
  match count with
  | 1 => b.toNat % 0x20
  | 2 => b.toNat % 0x10
  | _ => b.toNat % 0x08

/-- Reads `count` continuation bytes, the first of them between `lo` and `hi`: the code point they
complete, or how many were good and why no more were. -/
def finish (code lo hi : Nat) : Nat → List UInt8 → Except (Nat × Reason) Nat
  | 0, _ => .ok code
  | _ + 1, [] => .error (0, .unexpectedEnd)
  | count + 1, b :: bs =>
    if lo ≤ b.toNat ∧ b.toNat ≤ hi then
      match finish (code * 64 + b.toNat % 64) 0x80 0xbf count bs with
      | .ok n => .ok n
      | .error (good, reason) => .error (good + 1, reason)
    else
      .error (0, .invalidContinuation)

/-- The character at the front and how many bytes follow its first one. An error has the number of
bytes that follow the first faulty one. -/
def first (b : UInt8) (bs : List UInt8) : Except (Nat × Reason) (Char × Nat) :=
  if b.toNat < 0x80 then
    .ok (Char.ofNat b.toNat, 0)
  else
    match continuation? b with
    | none => .error (0, .invalidStart)
    | some (lo, hi, count) =>
      match finish (leadBits count b) lo hi count bs with
      | .ok n => .ok (Char.ofNat n, count)
      | .error e => .error e

/-- The characters of some bytes; `position` is where the bytes start. -/
def decodeFrom (position : Nat) : List UInt8 → Except Fault (List Char)
  | [] => .ok []
  | b :: bs =>
    match first b bs with
    | .error (good, reason) => .error ⟨position, good + 1, b, reason⟩
    | .ok (c, n) =>
      match decodeFrom (position + 1 + n) (bs.drop n) with
      | .ok cs => .ok (c :: cs)
      | .error e => .error e
termination_by bs => bs.length
decreasing_by
  simp only [List.length_drop, List.length_cons]
  omega

/-- The text of some bytes. -/
def decode (bs : List UInt8) : Except Fault String :=
  (decodeFrom 0 bs).map String.ofList

/-- How many bytes arrive at a time. -/
def portion : Nat := 8192

/-- The characters of bytes that arrive in portions, up to the first portion with a fault. An
unfinished character at the end of a portion waits for the next one, and places are counted from the
first byte that waited. -/
def decodePortions (waiting : List UInt8) : List UInt8 → List Char × Option Fault
  | [] =>
    match decodeFrom 0 waiting with
    | .ok cs => (cs, none)
    | .error e => ([], some e)
  | b :: bs =>
    let arrived := waiting ++ b :: bs.take (portion - 1)
    let rest := bs.drop (portion - 1)
    match decodeFrom 0 arrived with
    | .ok cs =>
      let (more, fault) := decodePortions [] rest
      (cs ++ more, fault)
    | .error e =>
      if e.reason = .unexpectedEnd then
        let cs := (decodeFrom 0 (arrived.take e.position)).toOption.getD []
        let (more, fault) := decodePortions (arrived.drop e.position) rest
        (cs ++ more, fault)
      else
        ([], some e)
termination_by bs => bs.length
decreasing_by
  all_goals
    simp only [List.length_drop, List.length_cons]
    omega

/-- The characters of some bytes, each fault replaced by the replacement character. -/
def decodeLossy : List UInt8 → List Char
  | [] => []
  | b :: bs =>
    match first b bs with
    | .error (good, _) => '\ufffd' :: decodeLossy (bs.drop good)
    | .ok (c, n) => c :: decodeLossy (bs.drop n)
termination_by bs => bs.length
decreasing_by
  all_goals
    simp only [List.length_drop, List.length_cons]
    omega

/-- The bytes of a text. -/
def encode (cs : List Char) : List UInt8 :=
  cs.flatMap String.utf8EncodeChar

end Typeahead.Utf8
