import Typeahead.Parser

/-! From a caret to the token it stands in. -/

namespace Typeahead

/-- A caret between characters: lines counted from one, columns from zero. It may lie outside the
text. -/
structure Caret where
  line : Int
  column : Int
  deriving DecidableEq, Repr

namespace Caret

/-- The order of reading. -/
def le (a b : Caret) : Bool :=
  a.line < b.line || (a.line == b.line && a.column ≤ b.column)

/-- The caret at a zero-based line and character. -/
def ofZeroBased (line character : Nat) : Caret :=
  ⟨line + 1, character⟩

end Caret

/-- A place as a caret. -/
def Position.caret (p : Position) : Caret :=
  ⟨p.line, p.column - 1⟩

/-- Whether a caret stands in a token or at one of its ends. -/
def Token.touches (t : Token) (c : Caret) : Bool :=
  t.start.caret.le c && c.le t.stop.caret

/-- Where a caret is in the grammar. -/
structure Cursor where
  /-- The token the caret belongs to; `none` before the first one. -/
  node : Option Token
  /-- The index in the token stream of the last token before the caret. -/
  index : Int
  /-- What has been typed of the name at the caret. -/
  typed : String
  deriving DecidableEq, Repr

namespace Cursor

/-- Whether the caret is on a name. -/
def isIdentifier (c : Cursor) : Bool :=
  c.node.any Token.isName

/-- The cursor of a caret in a token. -/
def inToken (token : Token) (index : Nat) (c : Caret) : Cursor :=
  let typed :=
    if token.isName && (token.start.line : Int) == c.line then
      String.ofList (token.text.toList.take (c.column - (token.start.column - 1)).toNat)
    else
      ""
  ⟨some token, index, typed⟩

mutual

/-- The first token of a tree that a caret touches. Nodes on other lines are passed over. -/
def find? (c : Caret) : Tree → Option Token
  | .leaf token => if !token.isMissing && token.touches c then some token else none
  | .node _ (some span) children =>
    if (span.start.line : Int) ≤ c.line && c.line ≤ (span.stop.line : Int) then
      findAny? c children
    else
      none
  | .node _ none children => findAny? c children

/-- The first token of several trees that a caret touches. -/
def findAny? (c : Caret) : List Tree → Option Token
  | [] => none
  | t :: ts =>
    match find? c t with
    | some token => some token
    | none => findAny? c ts

end

/-- The first token of a stream that a caret touches, else the last one that ends before it. `index`
is the index of the first token, `before` the last one passed that ends before the caret. -/
def scan (c : Caret) (index : Nat) (before : Option (Nat × Token)) : List Token → Cursor
  | [] =>
    match before with
    | some (i, token) => ⟨some token, i, ""⟩
    | none => ⟨none, -1, ""⟩
  | token :: rest =>
    if token.touches c then
      inToken token index c
    else
      scan c (index + 1) (if token.stop.caret.le c then some (index, token) else before) rest

/-- The token a caret belongs to. The tree is searched first, so that at the border of two tokens
the one that the tree holds is found; what the tree does not hold is found in the stream. -/
def touching (p : Parse) (c : Caret) : Cursor :=
  match find? c p.tree with
  | some token =>
    match p.indexOf? token with
    | some index => inToken token index c
    | none => scan c 0 none p.tokens
  | none => scan c 0 none p.tokens

/-- The cursor for completion: a name at the caret is still being typed, so it does not count as one
of the tokens before the caret. -/
def locate (p : Parse) (c : Caret) : Cursor :=
  let cursor := touching p c
  if cursor.isIdentifier then { cursor with index := cursor.index - 1 } else cursor

end Cursor

end Typeahead
