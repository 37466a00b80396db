import Typeahead.Text.Chars

/-! Days and times of day, as they are written in settings. -/

namespace Typeahead

/-- A time of day, with its distance from universal time in seconds if it has one. -/
structure Clock where
  hour : Nat
  minute : Nat
  second : Nat
  microsecond : Nat := 0
  zone : Option Int := none
  deriving DecidableEq, Repr

/-- A day, and a time on it if there is one. -/
structure Timestamp where
  year : Nat
  month : Nat
  day : Nat
  clock : Option Clock := none
  deriving DecidableEq, Repr

/-- Why there is no such day or time. -/
inductive TimestampError where
  | year (n : Nat)
  | month
  | day
  | hour
  | minute
  | second
  /-- The distance from universal time, in seconds. -/
  | zone (seconds : Int)
  deriving DecidableEq, Repr

namespace Timestamp

/-- A number of seconds as it is shown: whole days, then the rest, which is never negative. -/
def shownSpan (seconds : Int) : String :=
  let days := seconds / 86400
  let rest := seconds % 86400
  let parts := (if days = 0 then [] else ["days=" ++ toString days]) ++
    (if rest = 0 then [] else ["seconds=" ++ toString rest])
  "datetime.timedelta(" ++ (if parts.isEmpty then "0" else ", ".intercalate parts) ++ ")"

/-- A distance from universal time as it is shown. -/
def shownZone (seconds : Int) : String :=
  if seconds = 0 then "datetime.timezone.utc"
  else "datetime.timezone(" ++ shownSpan seconds ++ ")"

/-- A timestamp as it is shown. Seconds and what is below them are left out if they are zero. -/
def shown (t : Timestamp) : String :=
  let day := [t.year, t.month, t.day]
  let (name, numbers, zone) := match t.clock with
    | none => ("date", day, none)
    | some c =>
      let fine := if c.microsecond ≠ 0 then [c.second, c.microsecond]
        else if c.second ≠ 0 then [c.second] else []
      ("datetime", day ++ [c.hour, c.minute] ++ fine, c.zone)
  let zone := match zone with
    | none => []
    | some seconds => ["tzinfo=" ++ shownZone seconds]
  "datetime." ++ name ++ "(" ++ ", ".intercalate (numbers.map toString ++ zone) ++ ")"

/-- Every fourth year is a leap year, but of the full centuries only every fourth. -/
def isLeap (year : Nat) : Bool :=
  year % 4 == 0 && (year % 100 != 0 || year % 400 == 0)

/-- How many days a month has. -/
def daysIn (year month : Nat) : Nat :=
  if month = 2 then (if isLeap year then 29 else 28)
  else if month = 4 ∨ month = 6 ∨ month = 9 ∨ month = 11 then 30
  else 31

/-- What is wrong with a time of day. -/
def clockFault? (c : Clock) : Option TimestampError :=
  if 24 ≤ c.hour then some .hour
  else if 60 ≤ c.minute then some .minute
  else if 60 ≤ c.second then some .second
  else none

/-- What is wrong with a timestamp. The zone is looked at first. -/
def fault? (t : Timestamp) : Option TimestampError :=
  match t.clock.bind Clock.zone |>.filter (fun seconds => 86400 ≤ seconds.natAbs) with
  | some seconds => some (.zone seconds)
  | none =>
    if t.year = 0 then some (.year 0)
    else if t.month = 0 ∨ 12 < t.month then some .month
    else if t.day = 0 ∨ daysIn t.year t.month < t.day then some .day
    else t.clock.bind clockFault?

/-- A number of at least `least` and at most `most` digits at the front, and what follows it. -/
def digits? (least most : Nat) (cs : List Char) : Option (Nat × List Char) :=
  let (run, rest) := Text.cut (!Char.isDigit ·) cs
  if least ≤ run.length ∧ run.length ≤ most then
    some (run.foldl (fun n c => n * 10 + (c.toNat - '0'.toNat)) 0, rest)
  else
    none

/-- A character at the front, and what follows it. -/
def mark? (c : Char) : List Char → Option (List Char)
  | [] => none
  | d :: cs => if c = d then some cs else none

/-- The millionths of a second in the digits after a point; more than six do not count. -/
def millionths (ds : List Char) : Nat :=
  (ds ++ List.replicate 6 '0').take 6 |>.foldl (fun n c => n * 10 + (c.toNat - '0'.toNat)) 0

/-- The zone that ends a timestamp. -/
def zone? (cs : List Char) : Option (Option Int) :=
  match cs, cs.dropWhile (fun c => c == ' ' || c == '\t') with
  | [], _ => some none
  | _, ['Z'] => some (some 0)
  | _, sign :: rest => do
    let (hours, rest) ← digits? 1 2 rest
    let minutes ← match rest with
      | [] => some 0
      | _ => do
        let (minutes, rest) ← digits? 2 2 (← mark? ':' rest)
        if rest.isEmpty then some minutes else none
    let seconds : Int := hours * 3600 + minutes * 60
    if sign = '+' then some (some seconds)
    else if sign = '-' then some (some (-seconds))
    else none
  | _, [] => none

/-- The time of day that ends a timestamp. -/
def clock? (cs : List Char) : Option Clock := do
  let (hour, rest) ← digits? 1 2 cs
  let (minute, rest) ← digits? 2 2 (← mark? ':' rest)
  let (second, rest) ← digits? 2 2 (← mark? ':' rest)
  let (fraction, rest) := match rest with
    | '.' :: rest => Text.cut (!Char.isDigit ·) rest
    | _ => ([], rest)
  some ⟨hour, minute, second, millionths fraction, ← zone? rest⟩

/-- The timestamp that a text is: a day, or a day and a time with `T` or blanks between them. A
month and a day of one digit are only read with a time. -/
def ofText? (cs : List Char) : Option Timestamp := do
  let (year, rest) ← digits? 4 4 cs
  let (month, rest) ← digits? 1 2 (← mark? '-' rest)
  let (day, rest) ← digits? 1 2 (← mark? '-' rest)
  match rest with
  | [] => if cs.length = 10 then some ⟨year, month, day, none⟩ else none
  | c :: rest =>
    let time :=
      if c == 'T' || c == 't' then some rest
      else if c == ' ' || c == '\t' then some (rest.dropWhile fun c => c == ' ' || c == '\t')
      else none
    some ⟨year, month, day, some (← clock? (← time))⟩

end Timestamp

namespace TimestampError

/-- How an error is reported. -/
def message : TimestampError → String
  | .year n => "year " ++ toString n ++ " is out of range"
  | .month => "month must be in 1..12"
  | .day => "day is out of range for month"
  | .hour => "hour must be in 0..23"
  | .minute => "minute must be in 0..59"
  | .second => "second must be in 0..59"
  | .zone seconds =>
    "offset must be a timedelta strictly between -timedelta(hours=24) and timedelta(hours=24), not "
      ++ Timestamp.shownSpan seconds ++ "."

end TimestampError

end Typeahead
