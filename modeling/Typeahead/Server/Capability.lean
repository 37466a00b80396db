import Typeahead.Server.Message

/-! Capabilities: the parts of a server that answer requests. Each decides which requests it takes,
and a manager joins what they answer. -/

namespace Typeahead

/-- An answer with the messages sent on the way. -/
structure Answer (ε α : Type) where
  messages : List Message := []
  result : Except ε α

/-- A capability that completes. `ρ` are its requests and `ε` its failures. -/
structure Completer (ρ ε : Type) where
  canHandle : ρ → Bool
  complete : ρ → Answer ε ItemList
  /-- Adds details to an item. -/
  resolve : Item → Except ε Item := .ok

/-- A part of a server that answers requests. -/
structure Capability (ρ ε : Type) where
  name : String
  description : String
  completer : Option (Completer ρ ε) := none

/-- A call that a manager makes. -/
inductive Call where
  | canHandle (name : String)
  | complete (name : String)
  | resolve (name : String)
  deriving DecidableEq, Repr

/-- The capabilities of a server by key, in order. -/
abbrev Manager (ρ ε : Type) := List (String × Capability ρ ε)

namespace Manager

variable {ρ ε : Type}

/-- Adds a capability. One with the same key gives up its place to it. -/
def put (m : Manager ρ ε) (key : String) (c : Capability ρ ε) : Manager ρ ε :=
  if m.any (·.1 == key) then m.map fun e => if e.1 == key then (key, c) else e
  else m ++ [(key, c)]

/-- The capability with a key. -/
def get? (m : Manager ρ ε) (key : String) : Option (Capability ρ ε) :=
  m.lookup key

/-- The names of all capabilities. -/
def names (m : Manager ρ ε) : List String :=
  m.map (·.2.name)

/-- The capabilities that complete, with their names. -/
def completers (m : Manager ρ ε) : List (String × Completer ρ ε) :=
  m.filterMap fun e => e.2.completer.map (e.2.name, ·)

/-- What some capabilities answer to a request, one after the other, and the calls this takes. The
first failure ends it. -/
def collect (request : ρ) : List (String × Completer ρ ε) → List Call × Answer ε (List Item)
  | [] => ([], { result := .ok [] })
  | (name, c) :: rest =>
    if c.canHandle request then
      let here := c.complete request
      match here.result with
      | .error e =>
        ([.canHandle name, .complete name], { messages := here.messages, result := .error e })
      | .ok found =>
        let (calls, there) := collect request rest
        (.canHandle name :: .complete name :: calls,
          { messages := here.messages ++ there.messages
            result := there.result.map (found.items ++ ·) })
    else
      let (calls, there) := collect request rest
      (.canHandle name :: calls, there)

/-- Completes a request. The joint list is never incomplete. -/
def complete (m : Manager ρ ε) (request : ρ) : List Call × Answer ε ItemList :=
  let (calls, answer) := collect request m.completers
  (calls, { messages := answer.messages, result := answer.result.map fun items => { items } })

/-- The report of a capability that failed to resolve an item. -/
def resolveFailure (name text : String) : Message :=
  .log .error ("Completion resolve error in " ++ name ++ ": " ++ text)

/-- Passes an item through some capabilities. One that fails is reported and passed over. -/
def resolveWith (text : ε → String) :
    List (String × Completer ρ ε) → Item → List Call × List Message × Item
  | [], item => ([], [], item)
  | (name, c) :: rest, item =>
    match c.resolve item with
    | .ok item =>
      let (calls, messages, item) := resolveWith text rest item
      (.resolve name :: calls, messages, item)
    | .error e =>
      let (calls, messages, item) := resolveWith text rest item
      (.resolve name :: calls, resolveFailure name (text e) :: messages, item)

/-- Resolves an item; `text` words a failure. -/
def resolve (m : Manager ρ ε) (text : ε → String) (item : Item) :
    List Call × List Message × Item :=
  resolveWith text m.completers item

end Manager

end Typeahead
