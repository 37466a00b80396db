import Typeahead.Token

/-! Splitting a text into tokens. Every character ends up in exactly one token. -/

namespace Typeahead

namespace Lexer

/-- Letters and the underscore begin a name. -/
def isNameStart (c : Char) : Bool :=
  c.isAlpha || c == '_'

/-- Digits may continue one. -/
def isNamePart (c : Char) : Bool :=
  c.isAlphanum || c == '_'

/-- Blank space. -/
def isBlank (c : Char) : Bool :=
  c == ' ' || c == '\t' || c == '\x0c' || c == '\r' || c == '\n'

/-- How many characters at the front belong to a run. -/
def runLength (p : Char → Bool) (cs : List Char) : Nat :=
  (cs.takeWhile p).length

/-- The length of the name at the front. -/
def name? : List Char → Option Nat
  | [] => none
  | c :: cs => if isNameStart c then some (1 + runLength isNamePart cs) else none

/-- The length of the number at the front: digits, and a fraction if a digit follows the point. -/
def number? (cs : List Char) : Option Nat :=
  let whole := runLength Char.isDigit cs
  if whole = 0 then
    none
  else
    match cs.drop whole with
    | '.' :: rest =>
      let fraction := runLength Char.isDigit rest
      if fraction = 0 then some whole else some (whole + 1 + fraction)
    | _ => some whole

/-- The number of characters up to and including the quote that ends a string. A backslash takes
the next character with it; a line feed ends no string. -/
def untilQuote? : List Char → Option Nat
  | [] => none
  | c :: cs =>
    if c = '"' then
      some 1
    else if c = '\n' then
      none
    else if c = '\\' then
      match cs with
      | [] => none
      | d :: ds => if d = '\n' then none else (untilQuote? ds).map (· + 2)
    else
      (untilQuote? cs).map (· + 1)

/-- The length of the string at the front. -/
def string? : List Char → Option Nat
  | '"' :: cs => (untilQuote? cs).map (· + 1)
  | _ => none

/-- The number of characters up to and including the first comment end. -/
def untilCommentEnd? : List Char → Option Nat
  | '*' :: '/' :: _ => some 2
  | _ :: cs => (untilCommentEnd? cs).map (· + 1)
  | [] => none

/-- The length of the delimited comment at the front. -/
def delimitedComment? : List Char → Option Nat
  | '/' :: '*' :: cs => (untilCommentEnd? cs).map (· + 2)
  | _ => none

/-- The length of the line comment at the front. -/
def lineComment? : List Char → Option Nat
  | '/' :: '/' :: cs => some (2 + runLength (· != '\n') cs)
  | _ => none

/-- The length of the blank space at the front. -/
def blank? (cs : List Char) : Option Nat :=
  let n := runLength isBlank cs
  if n = 0 then none else some n

/-- The punctuation at the front and its length. -/
def punctuation? (cs : List Char) : Option (Terminal × Nat) :=
  Terminal.punctuation.findSome? fun t =>
    match t.literal? with
    | some s => if s.toList.isPrefixOf cs then some (t, s.length) else none
    | none => none

/-- The keyword a name is, if it is one. -/
def keyword? (cs : List Char) : Option Terminal :=
  Terminal.keywords.find? fun t => t.literal? == some (String.ofList cs)

/-- The terminal at the front and its length. The order of the attempts matters: a comment is
looked for before the operator it begins with. -/
def scan (cs : List Char) : Option (Terminal × Nat) :=
  match name? cs with
  | some n => some ((keyword? (cs.take n)).getD .name, n)
  | none =>
    match number? cs with
    | some n => some (.number, n)
    | none =>
      match string? cs with
      | some n => some (.string, n)
      | none =>
        match delimitedComment? cs with
        | some n => some (.delimitedComment, n)
        | none =>
          match lineComment? cs with
          | some n => some (.lineComment, n)
          | none =>
            match blank? cs with
            | some n => some (.ws, n)
            | none => punctuation? cs

/-- How many characters pass before some terminal begins. -/
def unlexableLength : List Char → Nat
  | [] => 0
  | c :: cs => if (scan (c :: cs)).isSome then 0 else 1 + unlexableLength cs

/-- What begins at a character: the kind of the lexeme, and how many characters follow the first. -/
def lexeme (c : Char) (cs : List Char) : Token.Kind × Nat :=
  match scan (c :: cs) with
  | some (t, n) => (.terminal t, n - 1)
  | none => (.unlexable, unlexableLength cs)

/-- A text cut into lexemes. -/
def lexemes : List Char → List (Token.Kind × List Char)
  | [] => []
  | c :: cs =>
    let (kind, n) := lexeme c cs
    (kind, c :: cs.take n) :: lexemes (cs.drop n)
termination_by cs => cs.length
decreasing_by
  simp only [List.length_drop, List.length_cons]
  omega

/-- Nothing is lost: the lexemes put together are the text. -/
theorem flatMap_lexemes (cs : List Char) : (lexemes cs).flatMap Prod.snd = cs := by
  fun_induction lexemes cs with
  | case1 => rfl
  | case2 c cs kind n _ ih => simp [ih]

/-- Lexemes put side by side from a place on. -/
def place (p : Position) : List (Token.Kind × List Char) → List Token
  | [] => []
  | (kind, cs) :: rest => ⟨kind, String.ofList cs, p, p.after cs⟩ :: place (p.after cs) rest

theorem place_append (p : Position) (xs ys : List (Token.Kind × List Char)) :
    place p (xs ++ ys) = place p xs ++ place (p.after (xs.flatMap Prod.snd)) ys := by
  induction xs generalizing p with
  | nil => rfl
  | cons x xs ih => simp [place, ih, Position.after_append]

end Lexer

/-- The tokens of a text, hidden ones included. -/
def tokenize (text : String) : List Token :=
  Lexer.place Position.start (Lexer.lexemes text.toList)

end Typeahead
