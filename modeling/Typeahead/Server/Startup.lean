import Typeahead.Server.Session

/-! What happens before the server listens. -/

namespace Typeahead

/-- A thing done at startup. -/
inductive StartupEvent where
  | note (text : String)
  | listen (host : String) (port : Nat)
  | awaitDebugger
  | serve (name version : String)
  deriving DecidableEq, Repr

namespace Startup

/-- Where a debugger attaches. -/
def debugHost : String := "127.0.0.1"

@[inherit_doc debugHost]
def debugPort : Nat := 5678

/-- What is done for debugging, with or without a debugger at hand. -/
def debugging (debugger : Bool) : List StartupEvent :=
  [.note "myktls starting in DEBUG mode",
   .note ("Waiting for debugger to attach on port " ++ toString debugPort ++ "...")] ++
  if debugger then
    [.listen debugHost debugPort, .awaitDebugger, .note "Debugger attached, continuing"]
  else
    [.note "debugpy not available - install with: pip install debugpy"]

/-- What is done at startup, given the value of the debugging switch. An empty value is none. -/
def events (debug : Option String) (debugger : Bool) : List StartupEvent :=
  (if debug.any (!·.isEmpty) then debugging debugger else []) ++
    [.serve Session.name Session.version]

/-- The notes among some events, one a line. -/
def notes (events : List StartupEvent) : String :=
  String.join (events.filterMap fun
    | .note text => some (text ++ "\n")
    | _ => none)

end Startup

end Typeahead
