import Typeahead.Settings.Yaml.Scalar
import Typeahead.Settings.Yaml.Token

/-! The tree of a settings file. -/

namespace Typeahead.Yaml

/-- A scalar or a collection. -/
inductive Node where
  | scalar (s : Scalar)
  | sequence (items : List Node)
  | mapping (entries : List (Node × Node))

namespace Node

/-- What stands for a missing value. -/
def empty : Node := .scalar (.value .null)

/-- A reader of trees over the tokens that are left. -/
abbrev Reading := StateT (List Token) (Except Error)

/-- The next token, which is left where it is. -/
def peek : Reading Token := do
  match ← get with
  | [] => throw .malformed
  | .fault e :: _ => throw e
  | t :: _ => return t

/-- Passes a token. -/
def skip : Reading Unit := modify List.tail

/-- Whether the next token is one of some. -/
def at? (among : List Token) : Reading Bool :=
  return among.contains (← peek)

/-- Passes a token if it is the next one. -/
def accept (t : Token) : Reading Bool := do
  if ← at? [t] then
    skip
    return true
  else
    return false

/-- Passes a token, which must be the next one. -/
def expect (t : Token) : Reading Unit := do
  if !(← accept t) then throw .malformed

/-- Whether another part of a flow collection comes. A comma parts it from the one before it, and
one may stand at the end. -/
def another (first : Bool) (stop : Token) : Reading Bool := do
  if ← accept stop then return false
  if !first then expect .comma
  return !(← accept stop)

mutual

/-- A node. In a block it may be a block; after a key it may be a sequence that is indented no more
than the key. -/
def read (block dashes : Bool) : Nat → Reading Node
  | 0 => throw .malformed
  | n + 1 => do
    match ← peek with
    | .plain text =>
      skip
      return .scalar (.ofPlain text)
    | .quoted points =>
      skip
      return .scalar (.value (.ofPoints points))
    | .flowSequence =>
      skip
      return .sequence (← flowSequence true n)
    | .flowMapping =>
      skip
      return .mapping (← flowMapping true n)
    | .blockSequence =>
      if !block then throw .malformed
      skip
      return .sequence (← blockSequence n)
    | .blockMapping =>
      if !block then throw .malformed
      skip
      return .mapping (← blockMapping n)
    | .entry =>
      if !dashes then throw .malformed
      return .sequence (← looseSequence n)
    | _ => throw .malformed

/-- A node, or an empty one before some tokens. -/
def readUnless (stops : List Token) (block dashes : Bool) : Nat → Reading Node
  | 0 => throw .malformed
  | n + 1 => do
    if ← at? stops then return empty
    read block dashes n

/-- The node behind a colon, or an empty one if there is no colon. -/
def readValue (stops : List Token) (block : Bool) : Nat → Reading Node
  | 0 => throw .malformed
  | n + 1 => do
    if ← accept .value then readUnless stops block block n else return empty

/-- The rest of a block sequence. -/
def blockSequence : Nat → Reading (List Node)
  | 0 => throw .malformed
  | n + 1 => do
    if ← accept .entry then
      let item ← readUnless [.entry, .blockEnd] true false n
      return item :: (← blockSequence n)
    expect .blockEnd
    return []

/-- The rest of a sequence that is indented no more than the key before it. -/
def looseSequence : Nat → Reading (List Node)
  | 0 => throw .malformed
  | n + 1 => do
    if ← accept .entry then
      let item ← readUnless [.entry, .key, .value, .blockEnd] true false n
      return item :: (← looseSequence n)
    return []

/-- The rest of a block mapping. -/
def blockMapping : Nat → Reading (List (Node × Node))
  | 0 => throw .malformed
  | n + 1 => do
    if ← accept .key then
      let key ← readUnless [.key, .value, .blockEnd] true true n
      let value ← readValue [.key, .value, .blockEnd] true n
      return (key, value) :: (← blockMapping n)
    expect .blockEnd
    return []

/-- The rest of a flow sequence. An entry with a colon is a mapping of its own. -/
def flowSequence (first : Bool) : Nat → Reading (List Node)
  | 0 => throw .malformed
  | n + 1 => do
    if !(← another first .flowSequenceEnd) then return []
    if ← accept .key then
      let key ← readUnless [.value, .comma, .flowSequenceEnd] false false n
      let value ← readValue [.comma, .flowSequenceEnd] false n
      return .mapping [(key, value)] :: (← flowSequence false n)
    let item ← read false false n
    return item :: (← flowSequence false n)

/-- The rest of a flow mapping. An entry without a colon has no value. -/
def flowMapping (first : Bool) : Nat → Reading (List (Node × Node))
  | 0 => throw .malformed
  | n + 1 => do
    if !(← another first .flowMappingEnd) then return []
    if ← accept .key then
      let key ← readUnless [.value, .comma, .flowMappingEnd] false false n
      let value ← readValue [.comma, .flowMappingEnd] false n
      return (key, value) :: (← flowMapping false n)
    let key ← read false false n
    return (key, empty) :: (← flowMapping false n)

end

/-- Passes the marks that end a document. -/
def skipDocumentEnds : Nat → Reading Unit
  | 0 => return
  | n + 1 => do
    if ← accept .documentEnd then skipDocumentEnds n

/-- The tree of the one document in a file; none is needed. -/
def document (fuel : Nat) : Reading Node := do
  if ← at? [.fileEnd] then
    return empty
  let node ←
    if ← accept .documentStart then
      readUnless [.documentStart, .documentEnd, .fileEnd] true false fuel
    else
      read true false fuel
  skipDocumentEnds fuel
  expect .fileEnd
  return node

/-- The tree of some tokens. A node is read in at most four steps a token. -/
def ofTokens (ts : List Token) : Except Error Node :=
  (document (4 * ts.length + 4)).run' ts

end Node

end Typeahead.Yaml
