import Typeahead.Settings.Yaml.Source

/-! The marks and scalars that a settings file is made of. This reader knows a part of the format:
it refuses anchors, aliases, tags, directives and block scalars, which other readers take. -/

namespace Typeahead.Yaml

/-- A mark or a scalar. Indentation shows as start and end of a block. -/
inductive Token where
  | plain (text : List Char)
  /-- A scalar in quotes, by its code points: escapes can name halves of surrogate pairs. -/
  | quoted (points : List Nat)
  | documentStart
  | documentEnd
  | blockSequence
  | blockMapping
  | blockEnd
  | flowSequence
  | flowSequenceEnd
  | flowMapping
  | flowMappingEnd
  | entry
  | comma
  | key
  | value
  | fileEnd
  /-- Reading failed here. -/
  | fault (error : Error)
  deriving DecidableEq, Repr

/-- A scalar or collection that turns out to be a key if a colon follows it on its line. -/
structure PendingKey where
  /-- How many tokens come before it. -/
  before : Nat
  /-- Whether only a key can stand where it stands. -/
  required : Bool
  offset : Nat
  line : Nat
  column : Nat

/-- A reader between two tokens. -/
structure Reader where
  rest : List Char
  /-- What happens behind the rest; `none` if that is the end of the file. -/
  failure : Option Error := none
  offset : Nat := 0
  line : Nat := 0
  column : Nat := 0
  /-- The column of the innermost block, -1 outside of all. -/
  indent : Int := -1
  /-- The columns of the blocks around it. -/
  outer : List Int := []
  /-- Whether a key may start here. -/
  keyAllowed : Bool := true
  /-- The pending key of the block, or of the innermost flow collection. -/
  pending : Option PendingKey := none
  /-- The pending keys around the open flow collections, innermost first. -/
  enclosing : List (Option PendingKey) := []
  /-- What has been read, the last token first. -/
  tokens : List Token := []
  /-- How many tokens have been read. -/
  count : Nat := 0

/-- Whether a character ends a line. -/
def isBreak (c : Char) : Bool :=
  c == '\n' || c == '\r' || c == '\u0085' || c == '\u2028' || c == '\u2029'

/-- Whether a character separates tokens. -/
def isSeparator (c : Char) : Bool :=
  c == ' ' || c == '\t' || isBreak c

/-- Whether a character separates words in quotes. -/
def isBlank (c : Char) : Bool :=
  c == ' ' || c == '\t'

/-- What a line end stands for in a scalar. -/
def breakValue (c : Char) : Char :=
  if c == '\u2028' || c == '\u2029' then c else '\n'

/-- Brackets, braces and commas. -/
def isFlowMark (c : Char) : Bool :=
  c == ',' || c == '[' || c == ']' || c == '\x7b' || c == '\x7d'

namespace Reader

/-- What a look at a place behind the loaded text shows: the end of the file or a failure. -/
def beyond (r : Reader) : Except Error (Option Char) :=
  match r.failure with
  | none => .ok none
  | some e => .error e

/-- The character some places on; `none` at the end of the file. -/
def look (r : Reader) (n : Nat) : Except Error (Option Char) :=
  match r.rest[n]? with
  | some c => .ok (some c)
  | none => r.beyond

/-- Whether a separator or the end of the file comes some places on. -/
def separatorAt (r : Reader) (n : Nat) : Except Error Bool :=
  return (← r.look n).all isSeparator

/-- The characters at the front that satisfy a test. Another one or the end of the file must follow
them. -/
def run (r : Reader) (p : Char → Bool) : Except Error (List Char) := do
  let cs := r.rest.takeWhile p
  let _ ← r.look cs.length
  return cs

/-- Whether a flow collection is open. -/
def inFlow (r : Reader) : Bool :=
  !r.enclosing.isEmpty

/-- One character on. -/
def step (r : Reader) : Reader :=
  match r.rest with
  | [] => r
  | c :: cs =>
    let r := { r with rest := cs, offset := r.offset + 1 }
    if isBreak c then { r with line := r.line + 1, column := 0 }
    else if c == '\ufeff' then r
    else { r with column := r.column + 1 }

/-- Some characters on. -/
def steps (r : Reader) : Nat → Reader
  | 0 => r
  | n + 1 => r.step.steps n

/-- Some characters on, if what comes then can be loaded. -/
def forward (r : Reader) (n : Nat) : Except Error Reader := do
  let _ ← r.look n
  return r.steps n

/-- Adds a token behind the first `n`. -/
def insert (r : Reader) (n : Nat) (t : Token) : Reader :=
  let later := r.count - n
  { r with tokens := r.tokens.take later ++ t :: r.tokens.drop later, count := r.count + 1 }

/-- Adds a token behind all. -/
def push (r : Reader) (t : Token) : Reader :=
  { r with tokens := t :: r.tokens, count := r.count + 1 }

/-- Whether the text goes on with three characters that separate documents. -/
def atDocumentMark (r : Reader) : Except Error Bool := do
  let _ ← r.look 2
  let mark := r.rest.take 3
  if mark = ['-', '-', '-'] ∨ mark = ['.', '.', '.'] then r.separatorAt 3 else return false

/-- Passes spaces, comments and line ends. A key may start on a new line of a block. -/
def skipBlanks (r : Reader) : Nat → Except Error Reader
  | 0 => .ok r
  | n + 1 => do
    match ← r.look 0 with
    | none => return r
    | some c =>
      if c == ' ' || (c == '\ufeff' && r.offset == 0) then
        (← r.forward 1).skipBlanks n
      else if c == '#' then
        (← r.forward (← r.run (!isBreak ·)).length).skipBlanks n
      else if isBreak c then
        let r ← r.forward 1
        { r with keyAllowed := r.keyAllowed || !r.inFlow }.skipBlanks n
      else
        return r

/-- Gives up a pending key; fails if only a key can stand there. -/
def dropKey (r : Reader) : Except Error Reader :=
  if r.pending.any PendingKey.required then .error .malformed else .ok { r with pending := none }

/-- Whether a key has waited too long for its colon: past its line, or for more characters than a
key may have. -/
def isStale (r : Reader) (k : PendingKey) : Bool :=
  k.line != r.line || 1024 < r.offset - k.offset

/-- Gives up the pending keys that have waited too long. -/
def dropStale (r : Reader) : Except Error Reader :=
  if (r.pending :: r.enclosing).any (·.any fun k => r.isStale k && k.required) then
    .error .malformed
  else
    .ok { r with
      pending := r.pending.filter (!r.isStale ·)
      enclosing := r.enclosing.map (·.filter (!r.isStale ·)) }

/-- Notes that the next token may be a key. -/
def saveKey (r : Reader) : Except Error Reader := do
  if r.keyAllowed then
    let required := !r.inFlow && r.indent == r.column
    let r ← r.dropKey
    return { r with pending := some ⟨r.count, required, r.offset, r.line, r.column⟩ }
  else
    return r

/-- Ends the blocks that are indented more than a column. -/
def closeBlocks (r : Reader) (column : Int) : List Int → Reader
  | [] => r
  | indent :: outer =>
    if !r.inFlow && column < r.indent then
      ({ r with indent, outer }.push .blockEnd).closeBlocks column outer
    else
      r

/-- Starts a block at a column, unless it goes on there; its mark goes behind the first `place`
tokens. -/
def openBlock (r : Reader) (column place : Nat) (t : Token) : Reader :=
  if r.indent < column then
    { r with indent := column, outer := r.indent :: r.outer }.insert place t
  else
    r

/-- Whether a plain scalar stops some places on. A colon ends it only before a separator, or before
a bracket or comma in a flow collection. -/
def stopsPlain (r : Reader) (n : Nat) (c : Char) : Except Error Bool := do
  if isSeparator c then
    return true
  else if c == ':' then
    return (← r.look (n + 1)).all fun d => isSeparator d || (r.inFlow && isFlowMark d)
  else
    return r.inFlow && (c == '?' || isFlowMark c)

/-- How many characters of a plain scalar come from some places on. -/
def plainLength (r : Reader) (n : Nat) : List Char → Except Error Nat
  | [] => do
    let _ ← r.beyond
    return 0
  | c :: cs => do
    if ← r.stopsPlain n c then return 0
    return 1 + (← r.plainLength (n + 1) cs)

/-- The empty lines that follow a line end, as they count in a scalar; `none` at the border of a
document. -/
def emptyLines (r : Reader) (blank : Char → Bool) : Nat → Except Error (Option (List Char × Reader))
  | 0 => .ok (some ([], r))
  | n + 1 => do
    if ← r.atDocumentMark then
      return none
    let r ← r.forward (← r.run blank).length
    match (← r.look 0).filter isBreak with
    | none => return some ([], r)
    | some c =>
      let more ← (← r.forward 1).emptyLines blank n
      return more.map fun (cs, r) => (breakValue c :: cs, r)

/-- What a line end and the empty lines after it are in a scalar. -/
def fold (c : Char) (empty : List Char) : List Char :=
  if breakValue c != '\n' then c :: empty else if empty.isEmpty then [' '] else empty

/-- What stands between two parts of a plain scalar; empty if it ends here. -/
def plainGap (r : Reader) : Except Error (List Char × Reader) := do
  let spaces ← r.run (· == ' ')
  let r ← r.forward spaces.length
  match (← r.look 0).filter isBreak with
  | none => return (spaces, r)
  | some c =>
    let r ← { r with keyAllowed := true }.forward 1
    match ← r.emptyLines (· == ' ') (r.rest.length + 1) with
    | none => return ([], r)
    | some (empty, r) => return (fold c empty, r)

/-- The next parts of a plain scalar, with what stands before them. -/
def plain (r : Reader) (gap : List Char) : Nat → Except Error (List Char × Reader)
  | 0 => .ok ([], r)
  | n + 1 => do
    if (← r.look 0) == some '#' then
      return ([], r)
    let length ← r.plainLength 0 r.rest
    if length == 0 then
      return ([], r)
    let part := gap ++ r.rest.take length
    let r ← { r with keyAllowed := false }.forward length
    let (gap, r) ← r.plainGap
    if gap.isEmpty || (!r.inFlow && r.column < r.indent + 1) then
      return (part, r)
    let (more, r) ← r.plain gap n
    return (part ++ more, r)

/-- The character that follows a backslash, for the escapes of one character. -/
def escape? (c : Char) : Option Char :=
  [('0', '\x00'), ('a', '\x07'), ('b', '\x08'), ('t', '\t'), ('\t', '\t'), ('n', '\n'),
   ('v', '\x0b'), ('f', '\x0c'), ('r', '\r'), ('e', '\x1b'), (' ', ' '), ('"', '"'),
   ('\\', '\\'), ('/', '/'), ('N', '\u0085'), ('_', '\u00a0'), ('L', '\u2028'),
   ('P', '\u2029')].lookup c

/-- How many hexadecimal digits follow a backslash and a letter. -/
def escapeWidth? (c : Char) : Option Nat :=
  [('x', 2), ('u', 4), ('U', 8)].lookup c

/-- The number of some hexadecimal digits from some places on. -/
def hexNumber (r : Reader) (value place : Nat) : Nat → Except Error Nat
  | 0 => .ok value
  | n + 1 => do
    match (← r.look place).bind Text.hexDigit? with
    | none => .error .malformed
    | some d => r.hexNumber (value * 16 + d) (place + 1) n

/-- The code point that a number names. -/
def codePoint (n : Nat) : Except Error Nat :=
  if n < 0x110000 then .ok n
  else if n < 0x80000000 then .error .codePoint
  else .error .word

/-- The code points of some characters. -/
def points (cs : List Char) : List Nat :=
  cs.map Char.toNat

/-- The empty lines that follow a line end in quotes. A document must not end there. -/
def quotedLines (r : Reader) : Except Error (List Char × Reader) := do
  match ← r.emptyLines isBlank (r.rest.length + 1) with
  | none => .error .malformed
  | some lines => return lines

/-- What stands at a break between the words of a quoted scalar. -/
def quotedGap (r : Reader) : Except Error (List Char × Reader) := do
  let spaces ← r.run isBlank
  let r ← r.forward spaces.length
  match ← r.look 0 with
  | none => .error .malformed
  | some c =>
    if isBreak c then
      let (empty, r) ← (← r.forward 1).quotedLines
      return (fold c empty, r)
    else
      return (spaces, r)

/-- The escape after a backslash. -/
def quotedEscape (r : Reader) : Except Error (List Nat × Reader) := do
  match ← r.look 0 with
  | none => .error .malformed
  | some c =>
    match escape? c, escapeWidth? c with
    | some d, _ => return ([d.toNat], ← r.forward 1)
    | none, some width =>
      let r ← r.forward 1
      let point ← codePoint (← r.hexNumber 0 0 width)
      return ([point], ← r.forward width)
    | none, none =>
      if isBreak c then
        let (empty, r) ← (← r.forward 1).quotedLines
        return (points empty, r)
      else
        .error .malformed

/-- Whether a character has a meaning in quotes. -/
def isQuotedMark (c : Char) : Bool :=
  c == '\'' || c == '"' || c == '\\' || isSeparator c

/-- What follows a word in quotes: its code points, or `none` at the closing quote. -/
def quotedPart (double : Bool) (r : Reader) : Except Error (Option (List Nat) × Reader) := do
  match ← r.look 0 with
  | none => .error .malformed
  | some c =>
    if c == '\'' && !double then
      if (← r.look 1) == some c then return (some (points [c]), ← r.forward 2)
      else return (none, ← r.forward 1)
    else if c == '"' && double then
      return (none, ← r.forward 1)
    else if c == '\\' && double then
      let (escaped, r) ← (← r.forward 1).quotedEscape
      return (some escaped, r)
    else if isSeparator c then
      let (gap, r) ← r.quotedGap
      return (some (points gap), r)
    else
      return (some (points [c]), ← r.forward 1)

/-- A quoted scalar after its opening quote. -/
def quoted (double : Bool) (r : Reader) : Nat → Except Error (List Nat × Reader)
  | 0 => .error .malformed
  | n + 1 => do
    let word ← r.run (!isQuotedMark ·)
    let (part, r) ← (← r.forward word.length).quotedPart double
    match part with
    | none => return (points word, r)
    | some part =>
      let (more, r) ← r.quoted double n
      return (points word ++ part ++ more, r)

/-- Passes a mark of some characters. -/
def mark (r : Reader) (width : Nat) (t : Token) : Except Error Reader :=
  return (← r.forward width).push t

/-- The mark that separates documents. -/
def documentMark (r : Reader) (t : Token) : Except Error Reader := do
  let r ← (r.closeBlocks (-1) r.outer).dropKey
  { r with keyAllowed := false }.mark 3 t

/-- The opening of a flow collection. -/
def openFlow (r : Reader) (t : Token) : Except Error Reader := do
  let r ← r.saveKey
  { r with keyAllowed := true, pending := none, enclosing := r.pending :: r.enclosing }.mark 1 t

/-- The end of a flow collection. -/
def closeFlow (r : Reader) (t : Token) : Except Error Reader := do
  let r ← r.dropKey
  match r.enclosing with
  | [] => .error .malformed
  | pending :: enclosing =>
    let r := { r with keyAllowed := false, pending, enclosing }
    r.mark 1 t

/-- The comma between the parts of a flow collection. -/
def comma (r : Reader) : Except Error Reader := do
  let r ← r.dropKey
  { r with keyAllowed := true }.mark 1 .comma

/-- Starts a block at a mark, where one is needed. It can only start where a key can. -/
def startBlock (r : Reader) (t : Token) : Except Error Reader :=
  if r.inFlow then .ok r
  else if r.keyAllowed then .ok (r.openBlock r.column r.count t)
  else .error .malformed

/-- The dash before an entry of a block sequence. -/
def entry (r : Reader) : Except Error Reader := do
  let r ← (← r.startBlock .blockSequence).dropKey
  { r with keyAllowed := true }.mark 1 .entry

/-- The question mark before a key. -/
def key (r : Reader) : Except Error Reader := do
  let r ← (← r.startBlock .blockMapping).dropKey
  { r with keyAllowed := !r.inFlow }.mark 1 .key

/-- The colon before a value. What was pending becomes a key, and a block mapping starts at it
unless one goes on there. -/
def value (r : Reader) : Except Error Reader := do
  match r.pending with
  | some k =>
    let r := { r with pending := none, keyAllowed := false }.insert k.before .key
    let r := if r.inFlow then r else r.openBlock k.column k.before .blockMapping
    r.mark 1 .value
  | none =>
    let r ← r.startBlock .blockMapping
    { r with keyAllowed := !r.inFlow }.mark 1 .value

/-- A scalar in quotes. -/
def quotedScalar (r : Reader) (double : Bool) : Except Error Reader := do
  let r ← r.saveKey
  let r ← { r with keyAllowed := false }.forward 1
  let (text, r) ← r.quoted double (r.rest.length + 1)
  return r.push (.quoted text)

/-- A scalar without quotes. -/
def plainScalar (r : Reader) : Except Error Reader := do
  let r ← r.saveKey
  let (text, r) ← { r with keyAllowed := false }.plain [] (r.rest.length + 1)
  return r.push (.plain text)

/-- Whether a plain scalar can start here. -/
def startsPlain (r : Reader) (c : Char) : Except Error Bool := do
  if !(isSeparator c || isFlowMark c || "-?:#&*!|>'\"%@`".toList.contains c) then
    return true
  else if c == '-' || (!r.inFlow && (c == '?' || c == ':')) then
    return !(← r.separatorAt 1)
  else
    return false

/-- Whether a character is a mark, alone or only before a separator. -/
def isMark (r : Reader) (c mark : Char) (alone : Bool) : Except Error Bool :=
  if c != mark then .ok false else if alone then .ok true else r.separatorAt 1

/-- The next token; fails where none can start. -/
def token (r : Reader) (c : Char) : Except Error Reader := do
  if r.column == 0 && (c == '-' || c == '.') then
    if ← r.atDocumentMark then
      return ← r.documentMark (if c == '-' then .documentStart else .documentEnd)
  if c == '[' then r.openFlow .flowSequence
  else if c == '\x7b' then r.openFlow .flowMapping
  else if c == ']' then r.closeFlow .flowSequenceEnd
  else if c == '\x7d' then r.closeFlow .flowMappingEnd
  else if c == ',' then r.comma
  else if c == '\'' then r.quotedScalar false
  else if c == '"' then r.quotedScalar true
  else if ← r.isMark c '-' false then r.entry
  else if ← r.isMark c '?' r.inFlow then r.key
  else if ← r.isMark c ':' r.inFlow then r.value
  else if ← r.startsPlain c then r.plainScalar
  else .error .malformed

/-- Reads one token, or the end of the file. -/
def next (r : Reader) : Except Error Reader := do
  let r ← (← r.skipBlanks (r.rest.length + 1)).dropStale
  let r := r.closeBlocks r.column r.outer
  match ← r.look 0 with
  | none => return (← (r.closeBlocks (-1) r.outer).dropKey).push .fileEnd
  | some c => r.token c

/-- The tokens up to a fault. A mark may still come before a pending key, so what stands behind it
has not been seen. -/
def failed (r : Reader) (e : Error) : List Token :=
  let settled := ((r.pending :: r.enclosing).filterMap (·.map PendingKey.before)).foldl min r.count
  r.tokens.reverse.take settled ++ [.fault e]

/-- All tokens of a text, at most `n` of them. -/
def allTokens (r : Reader) : Nat → List Token
  | 0 => r.failed .malformed
  | n + 1 =>
    match r.dropStale with
    | .error e => r.failed e
    | .ok r =>
      match r.next with
      | .error e => r.failed e
      | .ok r => if r.tokens.head? = some .fileEnd then r.tokens.reverse else r.allTokens n

end Reader

/-- The tokens of a source. The last one is the end of the file or a fault. Each of them takes at
least one character. -/
def tokenize (s : Source) : List Token :=
  Reader.allTokens { rest := s.text, failure := s.failure } (s.text.length + 1)

end Typeahead.Yaml
