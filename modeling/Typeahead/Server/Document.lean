import Typeahead.Cursor
import Typeahead.FileSystem
import Typeahead.Location
import Typeahead.Text.Newlines
import Typeahead.Text.Utf16

/-! The documents of an editor, and its way to count positions in them. -/

namespace Typeahead

/-- A position as an editor gives it: lines and UTF-16 units counted from zero. -/
structure EditorPosition where
  line : Nat
  character : Nat
  deriving DecidableEq, Repr

/-- Which of its two numbers is no part of a position. -/
inductive PositionError where
  | line (n : Int)
  | character (n : Int)
  deriving DecidableEq, Repr

namespace EditorPosition

/-- The greatest number that a position may have. -/
def greatest : Nat := 2147483647

/-- The position with two numbers. The line is looked at first. -/
def ofNumbers (line character : Int) : Except PositionError EditorPosition :=
  if line < 0 ∨ (greatest : Int) < line then .error (.line line)
  else if character < 0 ∨ (greatest : Int) < character then .error (.character character)
  else .ok ⟨line.toNat, character.toNat⟩

/-- The caret at a position, if units are characters. -/
def caret (p : EditorPosition) : Caret :=
  Caret.ofZeroBased p.line p.character

/-- The position on a line that it may lie behind: one that does is moved to the last unit. The
line end counts as one unit. -/
def clamp (line : List Char) (character : Nat) : Nat :=
  let length := Text.unitLength line
  if length < character then length - 1 else character

/-- The position moved onto its line, and the caret there. Without such a line it is taken as it
is. -/
def resolve (text : String) (p : EditorPosition) : EditorPosition × Caret :=
  match (Text.editorLines text.toList)[p.line]? with
  | none => (p, p.caret)
  | some line =>
    let line := Text.unifyNewlines line
    let character := clamp line p.character
    ({ p with character }, Caret.ofZeroBased p.line (Text.charsWithin character line))

end EditorPosition

namespace PositionError

/-- How an error is reported. -/
def message (e : PositionError) : String :=
  let (name, n) := match e with
    | .line n => ("line", n)
    | .character n => ("character", n)
  "Position." ++ name ++ " should be in range [0:" ++ toString EditorPosition.greatest ++
    "], but was " ++ toString n ++ "."

end PositionError

/-- The documents that are open in the editor. -/
abbrev Documents := List (String × String)

namespace Documents

/-- The key of a document: its URI without escapes. -/
def key (uri : String) : String :=
  String.ofList (Location.unescapeLossy uri.toList)

/-- Opens a document or replaces its text. -/
def put (d : Documents) (uri text : String) : Documents :=
  (key uri, text) :: d

/-- The text of an open document. -/
def get? (d : Documents) (uri : String) : Option String :=
  d.lookup (key uri)

end Documents

end Typeahead
