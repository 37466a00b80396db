import Typeahead.Path
import Typeahead.Text.Newlines
import Typeahead.Text.Quoted
import Typeahead.Text.Utf8

/-! What is found under a path, and what goes wrong when it is read. -/

namespace Typeahead

/-- What is found under a path. -/
inductive Status where
  | missing
  /-- The path leads through something that is not a directory. -/
  | blocked
  | directory
  | file (content : List UInt8)
  /-- A file that may not be read. -/
  | unreadable
  /-- The path leads through a directory that may not be searched. -/
  | forbidden
  | nameTooLong
  /-- The path holds a null character, which no path may. -/
  | unnameable
  deriving DecidableEq, Repr

/-- A file system, seen from outside: what is found under each path. -/
abbrev FileSystem := String → Status

/-- Why a file cannot be read. -/
inductive FileError where
  | notFound (path : String)
  | notDirectory (path : String)
  | isDirectory (path : String)
  | denied (path : String)
  | nameTooLong (path : String)
  | unnameable
  | undecodable (fault : Utf8.Fault)
  deriving DecidableEq, Repr

namespace FileError

/-- How a failure is reported. -/
def message : FileError → String
  | .notFound path => "[Errno 2] No such file or directory: " ++ Text.quoted path
  | .notDirectory path => "[Errno 20] Not a directory: " ++ Text.quoted path
  | .isDirectory path => "[Errno 21] Is a directory: " ++ Text.quoted path
  | .denied path => "[Errno 13] Permission denied: " ++ Text.quoted path
  | .nameTooLong path => "[Errno 36] File name too long: " ++ Text.quoted path
  | .unnameable => "embedded null byte"
  | .undecodable fault => fault.message

end FileError

namespace FileSystem

/-- The content of a file. The path is tidied first, and so a failure names it. -/
def content (fs : FileSystem) (path : String) : Except FileError (List UInt8) :=
  let path := Path.tidy path
  match fs path with
  | .file bytes => .ok bytes
  | .missing => .error (.notFound path)
  | .blocked => .error (.notDirectory path)
  | .directory => .error (.isDirectory path)
  | .unreadable | .forbidden => .error (.denied path)
  | .nameTooLong => .error (.nameTooLong path)
  | .unnameable => .error .unnameable

/-- The text of a file, its line ends unified. -/
def readText (fs : FileSystem) (path : String) : Except FileError String :=
  match fs.content path with
  | .error e => .error e
  | .ok bytes =>
    match Utf8.decode bytes with
    | .error fault => .error (.undecodable fault)
    | .ok s => .ok (String.ofList (Text.unifyNewlines s.toList))

/-- Whether anything is found under a path. Where it may not be looked for, or its name is too long,
that is an error and no answer. -/
def holds (fs : FileSystem) (path : String) : Except FileError Bool :=
  let path := Path.tidy path
  match fs path with
  | .file _ | .unreadable | .directory => .ok true
  | .missing | .blocked | .unnameable => .ok false
  | .forbidden => .error (.denied path)
  | .nameTooLong => .error (.nameTooLong path)

end FileSystem

end Typeahead
