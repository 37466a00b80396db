import Typeahead.Grammar.Terminal

/-! Tokens and their places in a text. -/

namespace Typeahead

/-- A place in a text: the number of characters before it, and its line and column counted from
one. Only a line feed ends a line. -/
structure Position where
  offset : Nat
  line : Nat
  column : Nat
  deriving DecidableEq, Repr

namespace Position

/-- The start of a text. -/
def start : Position := ⟨0, 1, 1⟩

/-- The place after one more character. -/
def next (p : Position) (c : Char) : Position :=
  if c = '\n' then ⟨p.offset + 1, p.line + 1, 1⟩ else ⟨p.offset + 1, p.line, p.column + 1⟩

/-- The place after some more characters. -/
def after (p : Position) (cs : List Char) : Position :=
  cs.foldl next p

@[simp] theorem after_nil (p : Position) : p.after [] = p := rfl

@[simp] theorem after_cons (p : Position) (c : Char) (cs : List Char) :
    p.after (c :: cs) = (p.next c).after cs := rfl

theorem after_append (p : Position) (xs ys : List Char) :
    p.after (xs ++ ys) = (p.after xs).after ys :=
  List.foldl_append

end Position

/-- What a lexeme is: an instance of a terminal, or a run of characters that starts none. -/
inductive Token.Kind where
  | terminal (t : Terminal)
  | unlexable
  deriving DecidableEq, Repr

namespace Token.Kind

/-- The name under which a kind is reported. -/
def label : Token.Kind → String
  | .terminal t => t.label
  | .unlexable => "BAD_CHARACTER"

/-- Whether the parser never sees tokens of this kind. -/
def hidden : Token.Kind → Bool
  | .terminal t => t.hidden
  | .unlexable => false

end Token.Kind

/-- A lexeme in its place. -/
structure Token where
  kind : Token.Kind
  text : String
  start : Position
  stop : Position
  deriving DecidableEq, Repr

namespace Token

/-- A token that stands for one missing at a place: it has no text and no extent. -/
def missing (t : Terminal) (p : Position) : Token :=
  ⟨.terminal t, "", p, p⟩

/-- Whether a token was made up by the parser. -/
def isMissing (t : Token) : Bool :=
  t.text.isEmpty

/-- The terminal that a token is an instance of. -/
def terminal? (t : Token) : Option Terminal :=
  match t.kind with
  | .terminal t => some t
  | .unlexable => none

/-- Whether a token is a name. -/
def isName (t : Token) : Bool :=
  t.kind == .terminal .name

end Token

end Typeahead
