import Typeahead.Settings.Yaml.Error
import Typeahead.Text.Newlines

/-! The characters of a settings file. They are loaded a chunk at a time, so a bad character far
down does no harm if nobody gets there. -/

namespace Typeahead.Yaml

/-- The characters that can be loaded, and what happens behind the last of them; `none` if that is
the end of the file. -/
structure Source where
  text : List Char
  failure : Option Error := none

/-- Whether a character may occur in a file at all. -/
def isReadable (c : Char) : Bool :=
  let n := c.toNat
  n == 0x09 || n == 0x0a || n == 0x0d || (0x20 ≤ n && n ≤ 0x7e) || n == 0x85 ||
    (0xa0 ≤ n && n ≤ 0xfffd) || 0x10000 ≤ n

namespace Source

/-- How many characters are loaded at a time. -/
def chunk : Nat := 4096

/-- Where the chunk of a character starts. The first two chunks are loaded together. -/
def chunkStart (index : Nat) : Nat :=
  if index < 2 * chunk then 0 else index / chunk * chunk

/-- The characters up to the chunk of the first unreadable one. -/
def ofText (text : List Char) (failure : Option Error) : Source :=
  match text.findIdx? (!isReadable ·) with
  | some index => ⟨text.take (chunkStart index), some .malformed⟩
  | none => ⟨text, failure⟩

/-- The source of some bytes. A line end that may be the first half of one waits, and is lost with a
portion that cannot be decoded. -/
def ofBytes (bs : List UInt8) : Source :=
  match Utf8.decodePortions [] bs with
  | (cs, none) => ofText (Text.unifyNewlines cs) none
  | (cs, some fault) =>
    let cs := if cs.getLast? == some '\r' then cs.dropLast else cs
    let text := Text.unifyNewlines cs
    ofText (text.take (chunkStart text.length)) (some (.undecodable fault))

end Source

end Typeahead.Yaml
