import Typeahead.Recovery
import Typeahead.Token.Lexer
import Typeahead.Tree
import Typeahead.Text.Quoted

/-! Parsing that never fails. -/

namespace Typeahead

/-- A problem that the parser recovered from. -/
inductive Issue where
  | unexpected (token : Token)
  | missingBefore (missing : Terminal) (token : Token)
  | missingAtEnd (missing : Terminal) (place : Position)
  deriving DecidableEq, Repr

namespace Issue

/-- How an issue is reported. -/
def message : Issue → String
  | .unexpected token => "Unexpected " ++ token.kind.label ++ " " ++ Text.quoted token.text
  | .missingBefore missing token =>
    "Missing " ++ missing.label ++ " before " ++ Text.quoted token.text
  | .missingAtEnd missing _ => "Missing " ++ missing.label ++ " at end of input"

/-- The terminal that was missing, unless a token was dropped. -/
def missing? : Issue → Option Terminal
  | .unexpected _ => none
  | .missingBefore missing _ => some missing
  | .missingAtEnd missing _ => some missing

/-- Where an issue is reported. -/
def place : Issue → Position
  | .unexpected token => token.start
  | .missingBefore _ token => token.start
  | .missingAtEnd _ place => place

end Issue

/-- A parser between two tokens: the states it is in, and a tree for each, top first. -/
structure Parser where
  states : List Automaton.State
  values : List Tree

/-- A tree on the stack of a trial. It is shared while its children are those of the tree at the
same depth in the parser that the trial was made from. -/
structure Draft where
  tree : Tree
  shared : Bool

/-- A trial of some terminals. It works on a copy of the parser's stack, but a repeated part that is
open in the parser is not copied: what the trial adds to it stays there. -/
structure Trial where
  states : List Automaton.State
  drafts : List Draft
  /-- The trees of the parser that the trial was made from. -/
  values : List Tree

namespace Trial

open Automaton

/-- The trial that has done nothing yet. -/
def of (p : Parser) : Trial :=
  ⟨p.states, p.values.map (⟨·, true⟩), p.values⟩

/-- A reduction. When the body starts with a spliced rule, the new tree keeps the children of the
old one and adds the rest of the body to them; if the old one is shared, the addition is made in
the parser's own tree too. -/
def reduce (t : Trial) (p : Production) : Trial :=
  let n := p.body.length
  let parts := (t.drafts.take n).reverse
  let rest := t.drafts.drop n
  let trees := parts.map Draft.tree
  let continues := (p.body.head?.any Symbol.spliced) && parts.head?.any Draft.shared
  let values :=
    if continues then
      t.values.modify (t.values.length - 1 - rest.length)
        (Tree.extend (Tree.gather p.body.tail trees.tail))
    else
      t.values
  { t with drafts := ⟨Tree.build p trees, continues⟩ :: rest, values }

/-- The trial after terminals inserted at a place, up to the first that is refused. -/
def play (place : Position) (t : Trial) : List Terminal → Trial
  | [] => t
  | a :: as =>
    let (ps, qs) := settle (.token a) t.states
    let t := { ps.foldl reduce t with states := qs }
    match shift? (top qs) a with
    | none => t
    | some q =>
      let leaf := ⟨.leaf (Token.missing a place), false⟩
      play place { t with states := q :: qs, drafts := leaf :: t.drafts } as

end Trial

namespace Parser

open Automaton

/-- The parser at the start of a text. -/
def initial : Parser := ⟨[], []⟩

/-- The reductions before a lookahead. -/
def settle (p : Parser) (a : Lookahead) : Parser :=
  let (ps, qs) := Automaton.settle a p.states
  ⟨qs, ps.foldl Tree.reduce p.values⟩

/-- The parser after a token, taken or refused. -/
def feed (p : Parser) (t : Terminal) (token : Token) : Bool × Parser :=
  let p := p.settle (.token t)
  match shift? (top p.states) t with
  | some q => (true, ⟨q :: p.states, .leaf token :: p.values⟩)
  | none => (false, p)

/-- What a trial of some terminals leaves in the parser. -/
def attempt (p : Parser) (place : Position) (ts : List Terminal) : Parser :=
  { p with values := ((Trial.of p).play place ts).values }

/-- What the search for a terminal to insert leaves in the parser. -/
def search (p : Parser) (place : Position) (wanted : Option Terminal) : Parser :=
  (Recovery.tried p.states wanted).foldl (fun p t => p.attempt place (t :: wanted.toList)) p

/-- Inserts a terminal after which the wanted one, if any, is taken. -/
def insert (p : Parser) (place : Position) (wanted : Option Terminal) :
    Option Terminal × Parser :=
  match Recovery.insertion? p.states wanted with
  | none => (none, p.search place wanted)
  | some m => (some m, ((p.search place wanted).feed m (Token.missing m place)).2)

/-- The parser after a token, mended if need be. `place` is where a missing token would stand: the
end of the token before. -/
def advance (p : Parser) (place : Position) (token : Token) : Repair × Parser :=
  match token.kind with
  | .unlexable => (.dropped, p)
  | .terminal t =>
    match p.feed t token with
    | (true, p) => (.taken, p)
    | (false, p) =>
      match p.insert place (some t) with
      | (none, p) => (.dropped, p)
      | (some m, p) => (.inserted m, (p.feed t token).2)

/-- The issue that a repair raises. -/
def issue? (token : Token) : Repair → Option Issue
  | .taken => none
  | .inserted m => some (.missingBefore m token)
  | .dropped => some (.unexpected token)

/-- The parser after some tokens, none of them hidden; with the end of the last token, and the
issues in order. -/
def run (p : Parser) (place : Position) : List Token → Parser × Position × List Issue
  | [] => (p, place, [])
  | token :: rest =>
    let (repair, p) := p.advance place token
    let (p, place, issues) := p.run token.stop rest
    (p, place, (issue? token repair).toList ++ issues)

/-- The most tokens that are inserted to finish a text. -/
def completionLimit : Nat := 32

/-- What comes of a text that has been read to its end. -/
structure Ending where
  tree : Tree
  /-- Whether the text, as it was mended, is a file. If not, the tree is all that was recognised,
  side by side. -/
  accepted : Bool
  issues : List Issue

/-- The end of a text whose tree is on top. -/
def accept (p : Parser) : Ending :=
  ⟨p.values.headD (.node .file none []), true, []⟩

/-- The end of a text that nothing can finish. -/
def abandon (p : Parser) : Ending :=
  ⟨.node .file none p.values.reverse, false, []⟩

/-- The end of a text, after at most `n` insertions. -/
def finish (place : Position) : Nat → Parser → Ending
  | 0, p => p.abandon
  | n + 1, p =>
    let p := p.settle .finish
    if top p.states == accepting then
      p.accept
    else
      match p.insert place none with
      | (none, p) => p.abandon
      | (some m, p) =>
        let rest := finish place n p
        { rest with issues := .missingAtEnd m place :: rest.issues }

end Parser

/-- A parsed text. -/
structure Parse where
  tokens : List Token
  tree : Tree
  /-- Whether the text, as it was mended, is a file. -/
  accepted : Bool
  issues : List Issue

/-- The tokens that the parser sees. -/
def significant (tokens : List Token) : List Token :=
  tokens.filter (!·.kind.hidden)

/-- Parses a text. -/
def parse (text : String) : Parse :=
  let tokens := tokenize text
  let (p, place, issues) := Parser.initial.run Position.start (significant tokens)
  let ending := Parser.finish place Parser.completionLimit p
  ⟨tokens, ending.tree, ending.accepted, issues ++ ending.issues⟩

/-- The index in the stream of a token from the tree; `none` for one that was made up. -/
def Parse.indexOf? (p : Parse) (token : Token) : Option Nat :=
  if token.isMissing then none else p.tokens.findIdx? (·.start.offset == token.start.offset)

/-- The terminals that are taken after some tokens, in grammar order. -/
def expectedAfter (tokens : List Token) : List Terminal :=
  Automaton.expected (Recovery.run [] ((significant tokens).filterMap Token.terminal?))

/-- The terminals that are taken after the tokens up to and including an index. A negative index
below -1 counts from the end: it leaves out that many tokens less one. -/
def expectedTerminals (tokens : List Token) (last : Int) : List Terminal :=
  let stop := last + 1
  let length : Int := tokens.length
  expectedAfter (tokens.take (if stop < 0 then stop + length else stop).toNat)

end Typeahead
