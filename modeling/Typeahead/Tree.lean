import Typeahead.Grammar.Rule
import Typeahead.Token

/-! Parse trees and how a reduction builds them. -/

namespace Typeahead

/-- The part of a text that a node covers. -/
structure Span where
  start : Position
  stop : Position
  deriving DecidableEq, Repr

/-- A parse tree. A node that covers nothing has no span. -/
inductive Tree where
  | leaf (token : Token)
  | node (rule : Rule) (span : Option Span) (children : List Tree)

namespace Tree

/-- The part of the text that a tree covers. -/
def span? : Tree → Option Span
  | .leaf token => some ⟨token.start, token.stop⟩
  | .node _ span _ => span

/-- The children of a node. -/
def children : Tree → List Tree
  | .leaf _ => []
  | .node _ _ children => children

/-- A node with more children at its end. Its span stays. -/
def extend (extra : List Tree) : Tree → Tree
  | .leaf token => .leaf token
  | .node rule span children => .node rule span (children ++ extra)

/-- The tree as a token, if it is a leaf. -/
def token? : Tree → Option Token
  | .leaf token => some token
  | .node .. => none

/-- Whether a tree is a node of the given rule. -/
def isNode (r : Rule) : Tree → Bool
  | .leaf _ => false
  | .node rule _ _ => rule == r

/-- The name tokens directly under a node. -/
def names (t : Tree) : List Token :=
  (t.children.filterMap token?).filter Token.isName

/-- From the start of the first part that covers anything to the end of the last. -/
def cover (parts : List Tree) : Option Span :=
  let spans := parts.filterMap span?
  match spans.head?, spans.getLast? with
  | some first, some last => some ⟨first.start, last.stop⟩
  | _, _ => none

/-- What one part of a body gives to the children of the whole. -/
def share (part : Symbol × Tree) : List Tree :=
  if part.1.spliced then part.2.children else [part.2]

/-- What all parts of a body give to the children of the whole. -/
def gather (symbols : List Symbol) (parts : List Tree) : List Tree :=
  (symbols.zip parts).flatMap share

/-- The tree of a production over the trees of its body. -/
def build (p : Production) (parts : List Tree) : Tree :=
  let children := gather p.body parts
  match p.rule.collapses, children with
  | true, [child] => child
  | _, _ => .node p.rule (cover parts) children

/-- A reduction on a stack of trees, top first. -/
def reduce (stack : List Tree) (p : Production) : List Tree :=
  let n := p.body.length
  build p (stack.take n).reverse :: stack.drop n

mutual

/-- All subtrees with their depth, each before its children. -/
def preorder (depth : Nat) : Tree → List (Nat × Tree)
  | .leaf token => [(depth, .leaf token)]
  | .node rule span children =>
    (depth, .node rule span children) :: preorderAll (depth + 1) children

/-- The subtrees of several trees side by side. -/
def preorderAll (depth : Nat) : List Tree → List (Nat × Tree)
  | [] => []
  | t :: ts => preorder depth t ++ preorderAll depth ts

end

/-- All subtrees, each before its children. -/
def subtrees (t : Tree) : List Tree :=
  (t.preorder 0).map Prod.snd

/-- The tokens of a tree, in order. -/
def leaves (t : Tree) : List Token :=
  t.subtrees.filterMap token?

end Tree

end Typeahead
