/-! The features of the editor that the server adapts to. -/

namespace Typeahead

/-- What an editor says of its workspaces. -/
structure WorkspaceSupport where
  configuration : Option Bool := none
  workspaceFolders : Option Bool := none

/-- What an editor says of the diagnostics it shows. -/
structure DiagnosticSupport where
  relatedInformation : Option Bool := none

/-- What an editor says of text documents. -/
structure DocumentSupport where
  diagnostics : Option DiagnosticSupport := none

/-- What an editor says of itself. -/
structure ClientSupport where
  workspace : Option WorkspaceSupport := none
  documents : Option DocumentSupport := none

/-- The features that matter here. -/
structure ClientFlags where
  configuration : Bool := false
  workspaceFolders : Bool := false
  relatedInformation : Bool := false
  deriving DecidableEq, Repr

namespace ClientFlags

/-- A feature is there only if the editor says so. -/
def ofSupport (s : ClientSupport) : ClientFlags where
  configuration := (s.workspace.bind WorkspaceSupport.configuration).getD false
  workspaceFolders := (s.workspace.bind WorkspaceSupport.workspaceFolders).getD false
  relatedInformation :=
    ((s.documents.bind DocumentSupport.diagnostics).bind
      DiagnosticSupport.relatedInformation).getD false

end ClientFlags

end Typeahead
