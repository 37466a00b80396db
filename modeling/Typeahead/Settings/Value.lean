import Typeahead.Settings.Timestamp
import Typeahead.Text.Quoted
import Typeahead.Text.Shortest

/-! The data that settings are made of. -/

namespace Typeahead

/-- Something that a settings file can hold and no setting is made for, such as a set. -/
structure Object where
  /-- The name of its type. -/
  type : String
  shown : String
  /-- Whether it can be looked up among names. -/
  hashable : Bool
  /-- Whether it counts as something. -/
  truthy : Bool
  deriving DecidableEq, Repr

/-- A value in a settings file or sent by a client. -/
inductive Value where
  | null
  | bool (b : Bool)
  | int (n : Int)
  | float (x : Float)
  | str (s : String)
  /-- A text that holds halves of surrogate pairs, by its code points. -/
  | fragments (points : List Nat)
  | timestamp (t : Timestamp)
  | list (items : List Value)
  /-- Keys and values in order; a key occurs once. -/
  | map (entries : List (Value × Value))
  | object (o : Object)
  deriving Inhabited

namespace Value

/-- Whether a value counts as something: nothing, false, zero and what is empty do not. -/
def truthy : Value → Bool
  | .null => false
  | .bool b => b
  | .int n => n != 0
  | .float x => x != 0
  | .str s => !s.isEmpty
  | .fragments points => !points.isEmpty
  | .timestamp _ => true
  | .list items => !items.isEmpty
  | .map entries => !entries.isEmpty
  | .object o => o.truthy

/-- A text by its code points. -/
def ofPoints (points : List Nat) : Value :=
  if points.all (·.isValidChar) then .str (String.ofList (points.map Char.ofNat))
  else .fragments points

/-- Whether a value is a given text. -/
def isText (s : String) : Value → Bool
  | .str t => t == s
  | _ => false

/-- The entries of a map. -/
def entries? : Value → Option (List (Value × Value))
  | .map entries => some entries
  | _ => none

/-- The value under a text key of some entries. -/
def find? (key : String) (entries : List (Value × Value)) : Option Value :=
  (entries.find? fun e => e.1.isText key).map Prod.snd

/-- A whole number in decimal. -/
def decimal (n : Int) : String :=
  match n with
  | .ofNat m => toString m
  | .negSucc m => "-" ++ toString (m + 1)

/-- The most digits that a whole number is written with. -/
def longestNumber : Nat := 4300

/-- The whole number that a value is equal to, if it is one: false and true are zero and one. -/
def whole? : Value → Option Int
  | .bool b => some (if b then 1 else 0)
  | .int n => some n
  | .float x =>
    if x.isNaN || x.isInf then none
    else (Text.Binary.ofFloat x).natural?.map fun n => if x < 0 then -(n : Int) else n
  | _ => none

/-- Whether two values are the same key of a map. Numbers are if they are equal, whatever their
kind. -/
def sameKey (a b : Value) : Bool :=
  match a.whole?, b.whole? with
  | some m, some n => m == n
  | none, none =>
    match a, b with
    | .null, .null => true
    | .float x, .float y => x == y
    | .str s, .str t => s == t
    | .fragments ps, .fragments qs => ps == qs
    | .timestamp s, .timestamp t => s == t
    | _, _ => false
  | _, _ => false

/-- Sets a key among some entries. A key that is there keeps its place. -/
def put (entries : List (Value × Value)) (key value : Value) : List (Value × Value) :=
  if entries.any (key.sameKey ·.1) then
    entries.map fun e => if key.sameKey e.1 then (e.1, value) else e
  else
    entries ++ [(key, value)]

end Value

end Typeahead
