import Typeahead.Import
import Typeahead.Proofs.Token.Place

/-!
Trees whose places are moved. Nothing but the places of the tokens and the spans of the nodes changes: a tree is
built in the same way from parts that are moved, and declares and imports the same names.
-/

namespace Typeahead

/-- A span whose ends are moved. -/
def Span.move (f : Position → Position) (span : Span) : Span :=
  ⟨f span.start, f span.stop⟩

@[simp] theorem Token.text_move (f : Position → Position) (token : Token) : (token.move f).text = token.text := rfl

@[simp] theorem Token.isMissing_move (f : Position → Position) (token : Token) :
    (token.move f).isMissing = token.isMissing := rfl

namespace Tree

mutual

/-- A tree whose places are moved. -/
def move (f : Position → Position) : Tree → Tree
  | .leaf token => .leaf (token.move f)
  | .node rule span children => .node rule (span.map (Span.move f)) (moveAll f children)

/-- Trees side by side whose places are moved. -/
def moveAll (f : Position → Position) : List Tree → List Tree
  | [] => []
  | t :: ts => move f t :: moveAll f ts

end

/-- A tree without its places. -/
def unplaced : Tree → Tree :=
  move fun _ => Position.start

variable {f : Position → Position}

@[simp] theorem moveAll_eq (ts : List Tree) : moveAll f ts = ts.map (move f) := by
  induction ts with
  | nil => rfl
  | cons t ts ih => rw [moveAll, ih, List.map_cons]

@[simp] theorem move_leaf (token : Token) : (leaf token).move f = leaf (token.move f) := by
  rw [move]

@[simp] theorem move_node (rule : Rule) (span : Option Span) (children : List Tree) :
    (node rule span children).move f = node rule (span.map (Span.move f)) (children.map (move f)) := by
  rw [move, moveAll_eq]

@[simp] theorem children_move (t : Tree) : (t.move f).children = t.children.map (move f) := by
  cases t with
  | leaf token => simp [children]
  | node rule span children => simp [Tree.children]

@[simp] theorem token?_move (t : Tree) : (t.move f).token? = t.token?.map (Token.move f) := by
  cases t with
  | leaf token => simp [token?]
  | node rule span children => simp [token?]

@[simp] theorem span?_move (t : Tree) : (t.move f).span? = t.span?.map (Span.move f) := by
  cases t with
  | leaf token => simp [span?, Token.move, Span.move]
  | node rule span children => simp [span?]

@[simp] theorem isNode_move (rule : Rule) (t : Tree) : (t.move f).isNode rule = t.isNode rule := by
  cases t with
  | leaf token => simp [isNode]
  | node rule span children => simp [isNode]

theorem move_extend (extra : List Tree) (t : Tree) :
    (t.extend extra).move f = (t.move f).extend (extra.map (move f)) := by
  cases t with
  | leaf token => simp [extend]
  | node rule span children => simp [extend]

/-! ## Building -/

theorem cover_move (parts : List Tree) :
    cover (parts.map (move f)) = (cover parts).map (Span.move f) := by
  have hspans : (parts.map (move f)).filterMap span? = (parts.filterMap span?).map (Span.move f) := by
    simp [List.filterMap_map, List.map_filterMap]
  simp only [cover, hspans, List.head?_map, List.getLast?_map]
  cases (parts.filterMap span?).head? <;> cases (parts.filterMap span?).getLast? <;> rfl

theorem gather_move (symbols : List Symbol) (parts : List Tree) :
    gather symbols (parts.map (move f)) = (gather symbols parts).map (move f) := by
  have hshare (part : Symbol × Tree) : share (part.1, part.2.move f) = (share part).map (move f) := by
    unfold share
    split <;> simp
  simp only [gather, List.zip_map_right, List.flatMap_map, List.map_flatMap, Prod.map, id, hshare]

theorem build_move (p : Production) (parts : List Tree) :
    build p (parts.map (move f)) = (build p parts).move f := by
  rw [build, build, gather_move, cover_move]
  cases p.rule.collapses with
  | false => simp
  | true =>
      match gather p.body parts with
      | [] => simp
      | [child] => simp
      | first :: second :: rest => simp

theorem reduce_move (stack : List Tree) (p : Production) :
    reduce (stack.map (move f)) p = (reduce stack p).map (move f) := by
  rw [reduce, reduce, ← List.map_take, ← List.map_reverse, build_move, ← List.map_drop, List.map_cons]

/-! ## Names -/

theorem names_move (t : Tree) : (t.move f).names = t.names.map (Token.move f) := by
  simp only [names, children_move, List.filterMap_map, Function.comp_def, token?_move]
  rw [← List.map_filterMap, List.filter_map]
  rfl

mutual

theorem preorder_move (depth : Nat) : (t : Tree) →
    (t.move f).preorder depth = (t.preorder depth).map (Prod.map id (move f))
  | .leaf token => by simp [preorder]
  | .node rule span children => by
      simp [preorder, preorderAll_move (depth + 1) children]

theorem preorderAll_move (depth : Nat) : (ts : List Tree) →
    preorderAll depth (ts.map (move f)) = (preorderAll depth ts).map (Prod.map id (move f))
  | [] => rfl
  | t :: ts => by
      simp [preorderAll, preorder_move depth t, preorderAll_move depth ts]

end

theorem subtrees_move (t : Tree) : (t.move f).subtrees = t.subtrees.map (move f) := by
  simp [subtrees, preorder_move, Function.comp_def]

end Tree

/-- The name and the kind of an entry. -/
def SymbolEntry.signature (entry : SymbolEntry) : String × SymbolKind :=
  (entry.name, entry.kind)

theorem signature_declaration? {f : Position → Position} (source source' : Option String) (t : Tree) :
    (SymbolTable.declaration? source (t.move f)).map SymbolEntry.signature =
      (SymbolTable.declaration? source' t).map SymbolEntry.signature := by
  cases t with
  | leaf token => simp [SymbolTable.declaration?]
  | node rule span children =>
      have hnames := Tree.names_move (f := f) (Tree.node rule span children)
      rw [Tree.move_node] at hnames ⊢
      simp only [SymbolTable.declaration?, hnames, List.head?_map]
      cases SymbolTable.declares rule with
      | none => rfl
      | some kind =>
          cases (Tree.node rule span children).names.head? with
          | none => rfl
          | some name =>
              by_cases hmissing : name.isMissing
              · simp [hmissing]
              · simp [hmissing, SymbolEntry.signature]

theorem signatures_move {f : Position → Position} (source source' : Option String) (t : Tree) :
    (SymbolTable.ofTree source (t.move f)).map SymbolEntry.signature =
      (SymbolTable.ofTree source' t).map SymbolEntry.signature := by
  rw [SymbolTable.ofTree, SymbolTable.ofTree, Tree.subtrees_move, List.filterMap_map, List.map_filterMap,
    List.map_filterMap]
  congr 1
  funext t
  exact signature_declaration? source source' t

theorem descend_move {f : Position → Position} (rule : Rule) (ts : List Tree) :
    Import.descend rule (ts.map (Tree.move f)) = (Import.descend rule ts).map (Tree.move f) := by
  simp only [Import.descend, List.flatMap_map, List.map_flatMap, Tree.children_move, List.filter_map,
    Function.comp_def, Tree.isNode_move]

theorem name_ofName? {f : Position → Position} (t : Tree) :
    (Import.ofName? (t.move f)).map Import.name = (Import.ofName? t).map Import.name := by
  rw [Import.ofName?, Import.ofName?, Tree.names_move]
  cases t.names with
  | nil => rfl
  | cons first rest =>
      have hany : ((first :: rest).map (Token.move f)).any Token.isMissing =
          (first :: rest).any Token.isMissing := by
        rw [List.any_map]
        rfl
      rw [List.map_cons] at hany ⊢
      simp only [hany]
      split
      · rfl
      · simp [Function.comp_def]

theorem importNames_move {f : Position → Position} (t : Tree) :
    (Import.ofTree (t.move f)).map Import.name = (Import.ofTree t).map Import.name := by
  have hroot : [t.move f] = [t].map (Tree.move f) := rfl
  rw [Import.ofTree, Import.ofTree, hroot]
  simp only [descend_move, List.filterMap_map, List.map_filterMap, Function.comp_def, name_ofName?]

end Typeahead
