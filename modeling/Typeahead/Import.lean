import Typeahead.FileSystem
import Typeahead.Location
import Typeahead.Parser
import Typeahead.SymbolTable

/-! Imports: `import lib` refers to a file of that name beside the importing one. -/

namespace Typeahead

/-- The name in one import, and its first token. -/
structure Import where
  name : String
  token : Token
  deriving DecidableEq, Repr

namespace Import

/-- The import of a qualified name, unless a part of the name is missing. -/
def ofName? (t : Tree) : Option Import :=
  match t.names with
  | [] => none
  | first :: rest =>
    if (first :: rest).any Token.isMissing then
      none
    else
      some ⟨String.ofList (['.'].intercalate ((first :: rest).map (·.text.toList))), first⟩

/-- The children of some trees that are nodes of a rule. -/
def descend (r : Rule) (ts : List Tree) : List Tree :=
  ts.flatMap fun t => t.children.filter (Tree.isNode r)

/-- The imports of a file, in order. -/
def ofTree (t : Tree) : List Import :=
  (descend .qualifiedName (descend .importHeader (descend .importList
    (descend .preamble [t])))).filterMap ofName?

/-- What imported files are called after their name. -/
def extension : String := ".mykt"

/-- The path of an import in a directory. -/
def path (directory : String) (i : Import) : String :=
  directory ++ i.name ++ extension

end Import

/-- A notice about an import that adds nothing. -/
inductive ImportWarning where
  | notFound (path : String)
  | unreadable (path : String) (error : FileError)
  deriving DecidableEq, Repr

namespace ImportWarning

/-- How a warning is worded. -/
def message : ImportWarning → String
  | .notFound path => "Imported file not found: " ++ path
  | .unreadable path error => "Cannot read from imported file " ++ path ++ ": " ++ error.message

end ImportWarning

/-- Why imports cannot be resolved at all. -/
inductive ImportError where
  | location (error : LocationError)
  | file (error : FileError)
  deriving DecidableEq, Repr

namespace ImportError

/-- How an error is reported. -/
def message : ImportError → String
  | .location error => error.message
  | .file error => error.message

end ImportError

/-- The state of resolving imports. -/
structure Resolver where
  /-- The visitor that all files share. -/
  visitor : Visitor := {}
  /-- The paths of the files that were visited. -/
  visited : List String := []
  warnings : List ImportWarning := []
  /-- What put an end to it, if anything did. -/
  error : Option ImportError := none

namespace Resolver

/-- Adds a warning. -/
def warn (r : Resolver) (w : ImportWarning) : Resolver :=
  { r with warnings := r.warnings ++ [w] }

/-- Visits a file, or warns that it cannot be read. -/
def process (fs : FileSystem) (r : Resolver) (path : String) : Resolver :=
  match fs.readText path with
  | .error e => r.warn (.unreadable path e)
  | .ok text =>
    { r with
      visitor := r.visitor.visitFile (parse text).tree (some path)
      visited := r.visited ++ [path] }

/-- Resolves an import, unless an error has put an end to it. -/
def step (fs : FileSystem) (directory : String) (r : Resolver) (i : Import) : Resolver :=
  if r.error.isSome then r
  else
    match fs.holds (i.path directory) with
    | .error e => { r with error := some (.file e) }
    | .ok false => r.warn (.notFound (i.path directory))
    | .ok true => r.process fs (i.path directory)

/-- Resolves the imports of a document with a visitor, one after another. -/
def resolve (fs : FileSystem) (cwd location : String) (imports : List Import) (v : Visitor) :
    Resolver :=
  match Location.directory cwd location with
  | .error e => { visitor := v, error := some (.location e) }
  | .ok directory => imports.foldl (step fs directory) { visitor := v }

end Resolver

end Typeahead
