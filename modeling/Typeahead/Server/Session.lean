import Typeahead.Completion
import Typeahead.Disk
import Typeahead.Server.Capability
import Typeahead.Server.ClientFlags
import Typeahead.Server.Document
import Typeahead.Settings

/-! A session with an editor: what the server remembers, and how each request changes it. -/

namespace Typeahead

/-- Why a request fails. -/
inductive Failure where
  | imports (error : ImportError)
  | file (error : FileError)
  | host (error : HostError)
  | position (error : PositionError)
  | settings (error : SettingsError)
  deriving DecidableEq, Repr

namespace Failure

/-- How a failure is reported. -/
def message : Failure → String
  | .imports error => error.message
  | .file error => error.message
  | .host error => error.message
  | .position error => error.message
  | .settings error => error.message

end Failure

/-- What an editor says when it starts a session. -/
structure StartParams where
  support : ClientSupport := {}
  rootUri : Option String := none
  rootPath : Option String := none
  options : Value := .null

/-- A request for completion. -/
structure CompletionRequest where
  uri : String
  position : EditorPosition

/-- What can happen in a session. -/
inductive Request where
  | features
  | start (params : StartParams)
  | started
  | foldersChanged
  | configure (settings : Value)
  | openDocument (uri text : String)
  | writeFile (name text : String)
  | complete (uri : String) (line character : Int)
  | resolve (item : Item)
  | dropManager

/-- What a request is answered with. -/
inductive Reply where
  | nothing
  | methods (names : List String)
  | items (list : ItemList)
  | item (item : Item)

/-- What the server remembers. -/
structure Session where
  settings : Settings := {}
  flags : Option ClientFlags := none
  documents : Documents := []
  /-- Whether there are capabilities to answer with. -/
  managed : Bool := true
  /-- The files that the server sees. -/
  disk : Disk
  /-- What the server reads its settings file with. -/
  reader : Settings.Reader

namespace Session

/-- The name of the server. -/
def name : String := "myktls"

/-- The version of the server. -/
def version : String := "0.1.0"

/-- The method for changes of the configuration. -/
def configurationMethod : String := "workspace/didChangeConfiguration"

/-- The methods that the server answers, in alphabetical order. -/
def methods : List String :=
  ["completionItem/resolve", "initialize", "initialized", "textDocument/completion",
   configurationMethod, "workspace/didChangeWorkspaceFolders"]

/-- The text of a document: as the editor has it, or else as it is on disk. -/
def documentText (s : Session) (uri : String) : Except Failure String :=
  match s.documents.get? uri, Location.documentPath uri with
  | some text, _ => .ok text
  | none, .error e => .error (.host e)
  | none, .ok path => (s.disk.fileSystem.readText path).mapError .file

/-- The number for a kind of item in the protocol. -/
def itemKind : Option SymbolKind → Int
  | none => 14
  | some .value => 6
  | some .function => 3
  | some .type => 7

/-- A suggestion as an item. -/
def toItem (s : Suggestion) : Item :=
  { label := s.label, kind := some (itemKind s.symbol) }

/-- A warning is shown to the user and logged. -/
def warn (w : ImportWarning) : List Message :=
  [.popup .warning w.message, .log .warning w.message]

/-- What the user is shown of a failed completion: only that a location cannot be decoded. -/
def alarm : ImportError → List Message
  | .location e => if e.isDecodeError then [.popup .error e.message] else []
  | .file _ => []

/-- The note of an answered request. -/
def traceNote (uri : String) (p : EditorPosition) (count : Nat) : Message :=
  .log .log ("Completion at " ++ uri ++ ":" ++ toString p.line ++ ":" ++ toString p.character ++
    ": " ++ toString count ++ " candidates")

/-- Completes the text of a document at a caret. The position is only noted. -/
def suggestAt (s : Session) (uri text : String) (position : EditorPosition) (caret : Caret) :
    Answer Failure ItemList :=
  let done := Completion.collect ⟨s.settings.filter, s.settings.operators.truthy⟩
    s.disk.fileSystem s.disk.cwd uri text caret
  let warnings := done.warnings.flatMap warn
  match done.result with
  | .error e => { messages := warnings ++ alarm e, result := .error (.imports e) }
  | .ok suggestions =>
    let note :=
      if s.settings.trace.truthy then [traceNote uri position suggestions.length] else []
    { messages := warnings ++ note, result := .ok { items := suggestions.map toItem } }

/-- Completes a document. -/
def suggest (s : Session) (r : CompletionRequest) : Answer Failure ItemList :=
  match s.documentText r.uri with
  | .error e => { result := .error e }
  | .ok text =>
    let (position, caret) := r.position.resolve text
    s.suggestAt r.uri text position caret

/-- The capability that completes keywords and names. -/
def suggestionCapability (s : Session) : Capability CompletionRequest Failure where
  name := "suggestion_completion"
  description :=
    "Complete keywords valid at the cursor and names declared in the file and its imports"
  completer := some { canHandle := fun _ => true, complete := s.suggest }

/-- The capabilities of the server. -/
def manager (s : Session) : Manager CompletionRequest Failure :=
  [("suggestion_completion", s.suggestionCapability)]

/-- The directory of the workspace: the one of the URI, unless that is empty, else the path. -/
def workspace? (s : Session) (p : StartParams) : Except LocationError (Option String) :=
  match p.rootUri.filter (!·.isEmpty), p.rootPath.filter (!·.isEmpty) with
  | some uri, _ => (Location.toPath s.disk.cwd uri).map some
  | none, some path => .ok (some path)
  | none, none => .ok none

/-- The report of settings that cannot be used at the start. -/
def startReport (text : String) : Message :=
  .log .error ("Invalid myktls settings, using defaults: " ++ text)

/-- The settings at the start of a session. Settings that cannot be used are reported and give way
to the defaults, unless their error is one that fails the request. -/
def startSettings (s : Session) (p : StartParams) : Answer Failure Settings :=
  match s.workspace? p with
  | .error e => { messages := [startReport e.message], result := .ok {} }
  | .ok directory =>
    match Settings.load s.reader s.disk.fileSystem directory p.options with
    | .ok settings => { result := .ok settings }
    | .error e =>
      if e.isReported then { messages := [startReport e.message], result := .ok {} }
      else { result := .error (.settings e) }

/-- Starts the session. The flags are set first. -/
def start (s : Session) (p : StartParams) : Session × Answer Failure Reply :=
  let s := { s with flags := some (ClientFlags.ofSupport p.support) }
  let answer := s.startSettings p
  match answer.result with
  | .error e => (s, { messages := answer.messages, result := .error e })
  | .ok settings =>
    let note := Message.log .info ("Using " ++ settings.filter.label ++ " token filter")
    ({ s with settings }, { messages := answer.messages ++ [note], result := .ok .nothing })

/-- Changes the settings to those of a configuration, if it has a section for this server. -/
def configure (s : Session) (configuration : Value) : Session × Answer Failure Reply :=
  match configuration.entries?.bind (Value.find? Settings.sectionName) with
  | some (.map entries) =>
    match s.settings.merge entries with
    | .ok settings =>
      ({ s with settings },
        { messages := [.log .info "myktls settings updated"], result := .ok .nothing })
    | .error e =>
      if e.isLookupFailure then
        (s, { result := .error (.settings (.filter e)) })
      else
        (s, { messages := [.log .error ("Ignoring invalid myktls settings: " ++ e.message)]
              result := .ok .nothing })
  | _ => (s, { result := .ok .nothing })

/-- Answers a request. -/
def step (s : Session) : Request → Session × Answer Failure Reply
  | .features => (s, { result := .ok (.methods methods) })
  | .start params => s.start params
  | .started =>
    let messages :=
      if s.flags.any ClientFlags.configuration then [.register configurationMethod] else []
    (s, { messages, result := .ok .nothing })
  | .foldersChanged =>
    (s, { messages := [.log .log "Workspace folder change event received."]
          result := .ok .nothing })
  | .configure settings => s.configure settings
  | .openDocument uri text =>
    match Location.documentPath uri with
    | .error e => (s, { result := .error (.host e) })
    | .ok _ => ({ s with documents := s.documents.put uri text }, { result := .ok .nothing })
  | .writeFile name text =>
    ({ s with disk := s.disk.write name (.file (Utf8.encode text.toList)) },
      { result := .ok .nothing })
  | .complete uri line character =>
    match EditorPosition.ofNumbers line character with
    | .error e => (s, { result := .error (.position e) })
    | .ok position =>
      if s.managed then
        let answer := (s.manager.complete ⟨uri, position⟩).2
        (s, { messages := answer.messages, result := answer.result.map .items })
      else
        (s, { result := .ok (.items {}) })
  | .resolve item =>
    if s.managed then
      let (_, messages, item) := s.manager.resolve Failure.message item
      (s, { messages, result := .ok (.item item) })
    else
      (s, { result := .ok (.item item) })
  | .dropManager => ({ s with managed := false }, { result := .ok .nothing })

end Session

end Typeahead
