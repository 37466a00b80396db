import Typeahead.FileSystem
import Typeahead.Path

/-! A file system held in memory. -/

namespace Typeahead

/-- What a directory holds under a name. -/
inductive Disk.Entry where
  | file (content : List UInt8)
  | directory
  deriving DecidableEq, Repr

/-- Files and directories by the parts of their paths, later ones first, and the working
directory. The root is always there. -/
structure Disk where
  cwd : String
  entries : List (List String × Disk.Entry)

namespace Disk

/-- What stands at the end of some parts. -/
def entry? (d : Disk) (parts : List String) : Option Entry :=
  if parts.isEmpty then some .directory else d.entries.lookup parts

/-- Puts an entry on the disk, with the directories that lead to it. -/
def put (d : Disk) (parts : List String) (e : Entry) : Disk :=
  let parents := (List.range parts.length).map fun n => (parts.take n, Entry.directory)
  { d with entries := (parts, e) :: (parents.reverse ++ d.entries) }

/-- The named parts of a path. -/
def named (path : String) : List String :=
  (Path.parts path).filter fun part => part != "" && part != "."

/-- A disk with nothing but the working directory. -/
def empty (cwd : String) : Disk :=
  (Disk.mk cwd []).put (named cwd) .directory

/-- Writes a file or directory under a path from the working directory. -/
def write (d : Disk) (path : String) (e : Entry) : Disk :=
  d.put (named d.cwd ++ named path) e

/-- The longest name that fits, in bytes. -/
def longestName : Nat := 255

/-- The longest path that fits, in bytes. -/
def longestPath : Nat := 4095

/-- Follows parts from a directory. -/
def walk (d : Disk) (here : List String) : List String → Status
  | [] =>
    match d.entry? here with
    | some (.file content) => .file content
    | some .directory => .directory
    | none => .missing
  | part :: rest =>
    match d.entry? here with
    | none => .missing
    | some (.file _) => .blocked
    | some .directory =>
      if part == ".." then walk d here.dropLast rest
      else if longestName < part.utf8ByteSize then .nameTooLong
      else walk d (here ++ [part]) rest

/-- What a path leads to. A slash at its end asks for a directory. -/
def status (d : Disk) (path : String) : Status :=
  if path.toList.contains '\x00' then
    .unnameable
  else if longestPath < path.utf8ByteSize then
    .nameTooLong
  else if path.isEmpty then
    .missing
  else
    let found := d.walk (if Path.isAbsolute path then [] else named d.cwd) (named path)
    match found, path.endsWith "/" || path.endsWith "/." with
    | .file _, true => .blocked
    | found, _ => found

/-- The disk seen from outside. -/
def fileSystem (d : Disk) : FileSystem :=
  d.status

end Disk

end Typeahead
