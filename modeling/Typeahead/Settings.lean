import Typeahead.FileSystem
import Typeahead.Path
import Typeahead.Settings.FilterName
import Typeahead.Settings.Reader

/-! The settings of the server. They come from a file in the workspace and from the client. -/

namespace Typeahead

/-- The settings. What is not a filter is kept as it was given. -/
structure Settings where
  filter : Filter := .fuzzy
  operators : Value := .bool false
  trace : Value := .bool false

/-- Why settings cannot be used. -/
inductive SettingsError where
  | filter (error : FilterNameError)
  | file (error : FileError)
  | document (error : Settings.ReadError)
  deriving DecidableEq, Repr

namespace SettingsError

/-- Whether settings with this error are only reported. -/
def isReported : SettingsError → Bool
  | .filter error => !error.isLookupFailure
  | .file _ => true
  | .document error => error.isReported

/-- How an error is reported. -/
def message : SettingsError → String
  | .filter error => error.message
  | .file error => error.message
  | .document error => error.message

end SettingsError

namespace Settings

/-- The names of the settings. -/
def filterKey : String := "token_filter"

@[inherit_doc filterKey]
def operatorsKey : String := "include_operators"

@[inherit_doc filterKey]
def traceKey : String := "trace"

/-- The settings with those that some entries name put in place. Nothing is changed if the filter is
unknown; other entries are passed over. -/
def merge (s : Settings) (entries : List (Value × Value)) : Except FilterNameError Settings :=
  let operators := (Value.find? operatorsKey entries).getD s.operators
  let trace := (Value.find? traceKey entries).getD s.trace
  match Value.find? filterKey entries with
  | none => .ok ⟨s.filter, operators, trace⟩
  | some name =>
    match Filter.ofValue name with
    | .ok filter => .ok ⟨filter, operators, trace⟩
    | .error e => .error e

/-- The settings with those of a value, if it is a map. -/
def mergeValue (s : Settings) (v : Value) : Except FilterNameError Settings :=
  match v with
  | .map entries => s.merge entries
  | _ => .ok s

/-- The name of the settings file. -/
def fileName : String := ".myktls.yml"

/-- The section of a client's data that holds the settings. -/
def sectionName : String := "myktls"

/-- The content of the settings file in a directory; `none` if there is no such file. -/
def fileContent? (fs : FileSystem) (directory : String) : Except FileError (Option (List UInt8)) :=
  let path := Path.tidy (Path.join directory fileName)
  match fs path with
  | .nameTooLong => .error (.nameTooLong path)
  | .unreadable | .forbidden => .error (.denied path)
  | .file bytes => .ok (some bytes)
  | _ => .ok none

/-- The defaults with what the workspace file says. A file that is no map says nothing. -/
def ofWorkspace (read : Reader) (fs : FileSystem) : Option String → Except SettingsError Settings
  | none => .ok {}
  | some directory =>
    match fileContent? fs directory with
    | .error e => .error (.file e)
    | .ok none => .ok {}
    | .ok (some bytes) =>
      match read bytes with
      | .error e => .error (.document e)
      | .ok value => (Settings.mergeValue {} value).mapError .filter

/-- What a client's options say: their section for this server, or else they themselves. -/
def sectionOf (options : Value) : Value :=
  match options with
  | .map entries => (Value.find? sectionName entries).getD options
  | _ => .null

/-- The settings for a workspace and a client. -/
def load (read : Reader) (fs : FileSystem) (directory : Option String) (options : Value) :
    Except SettingsError Settings :=
  match ofWorkspace read fs directory with
  | .error e => .error e
  | .ok s => (s.mergeValue (sectionOf options)).mapError .filter

end Settings

end Typeahead
