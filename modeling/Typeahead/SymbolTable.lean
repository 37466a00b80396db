import Typeahead.Tree

/-! The names that a file declares. -/

namespace Typeahead

/-- What a declared name stands for. -/
inductive SymbolKind where
  | value
  | function
  | type
  deriving DecidableEq, Repr

namespace SymbolKind

/-- The word for a kind. -/
def label : SymbolKind → String
  | .value => "value"
  | .function => "function"
  | .type => "type"

/-- The kind with a given word. -/
def ofLabel? : String → Option SymbolKind
  | "value" => some .value
  | "function" => some .function
  | "type" => some .type
  | _ => none

end SymbolKind

/-- A declared name and where it is declared: lines counted from one, columns from zero. -/
structure SymbolEntry where
  name : String
  kind : SymbolKind
  source : Option String
  line : Nat
  column : Nat
  deriving DecidableEq, Repr

/-- Declared names in order. A name declared twice is there twice. -/
abbrev SymbolTable := List SymbolEntry

namespace SymbolTable

/-- The names in order. -/
def names (table : SymbolTable) : List String :=
  table.map SymbolEntry.name

/-- The rules that declare a name, and what it stands for. -/
def declares : Rule → Option SymbolKind
  | .propertyDeclaration | .parameter | .classParameter | .forStatement => some .value
  | .functionDeclaration => some .function
  | .classDeclaration => some .type
  | _ => none

/-- What the root of a tree declares: the first name directly under it, unless it is missing. -/
def declaration? (source : Option String) : Tree → Option SymbolEntry
  | .leaf _ => none
  | .node rule span children =>
    match declares rule, (Tree.node rule span children).names.head? with
    | some kind, some name =>
      if name.isMissing then
        none
      else
        some ⟨name.text, kind, source, name.start.line, name.start.column - 1⟩
    | _, _ => none

/-- All that a tree declares, outer declarations before the ones in them. -/
def ofTree (source : Option String) (t : Tree) : SymbolTable :=
  t.subtrees.filterMap (declaration? source)

end SymbolTable

/-- A collector of declarations. One is used for all files of a request: it holds the file that it
is in, and what it has found in this file and those before. -/
structure Visitor where
  source : Option String := none
  table : SymbolTable := []

namespace Visitor

/-- Adds what the root of a tree declares. -/
def visit (v : Visitor) (t : Tree) : Visitor :=
  match SymbolTable.declaration? v.source t with
  | some entry => { v with table := v.table ++ [entry] }
  | none => v

/-- Goes to a file and through its tree, outer declarations before the ones in them. -/
def visitFile (v : Visitor) (t : Tree) (source : Option String) : Visitor :=
  t.subtrees.foldl visit { v with source }

/-- Visiting stays in its file. -/
theorem foldl_visit (v : Visitor) (ts : List Tree) :
    ts.foldl visit v =
      { v with table := v.table ++ ts.filterMap (SymbolTable.declaration? v.source) } := by
  induction ts generalizing v with
  | nil => simp
  | cons t ts ih =>
      rw [List.foldl_cons, ih, visit]
      cases hd : SymbolTable.declaration? v.source t with
      | none => simp [hd]
      | some entry => simp [hd]

/-- Whatever file a visitor comes from, it adds what the next one declares. -/
theorem visitFile_eq (v : Visitor) (t : Tree) (source : Option String) :
    v.visitFile t source = ⟨source, v.table ++ SymbolTable.ofTree source t⟩ :=
  foldl_visit { v with source } t.subtrees

end Visitor

end Typeahead
