import Typeahead.Settings.Yaml.Node

/-! The value of a settings file. -/

namespace Typeahead.Yaml

/-- A tree in which the merge keys have given way to the entries that they stand for. -/
inductive Merged where
  | scalar (s : Scalar)
  | sequence (items : List Merged)
  | mapping (entries : List (Merged × Merged))
  /-- A mapping that takes over the entries of something that has none. -/
  | unmerged

namespace Merged

/-- The entries of a mapping. -/
def entries? : Merged → Option (List (Merged × Merged))
  | .mapping entries => some entries
  | _ => none

/-- The entries that the value of a merge key stands for. Of several mappings the first one comes
last, so that its values count. -/
def taken? : Merged → Option (List (Merged × Merged))
  | .sequence items => (items.mapM entries?).map fun parts => parts.reverse.flatten
  | node => node.entries?

/-- Whether a node is a merge key. -/
def isMerge : Merged → Bool
  | .scalar .merge => true
  | _ => false

/-- A mapping with some entries. Those of merge keys come first, so that its own values count. -/
def ofEntries (entries : List (Merged × Merged)) : Merged :=
  let (merges, own) := entries.partition fun e => isMerge e.1
  match merges.mapM fun e => e.2.taken? with
  | none => .unmerged
  | some taken => .mapping (taken.flatten ++ own)

end Merged

mutual

/-- A tree without its merge keys. -/
def Node.merged : Node → Merged
  | .scalar s => .scalar s
  | .sequence items => .sequence (mergedItems items)
  | .mapping entries => .ofEntries (mergedEntries entries)

/-- Trees without their merge keys. -/
def Node.mergedItems : List Node → List Merged
  | [] => []
  | item :: items => item.merged :: mergedItems items

/-- Entries without the merge keys in them. -/
def Node.mergedEntries : List (Node × Node) → List (Merged × Merged)
  | [] => []
  | (key, value) :: entries => (key.merged, value.merged) :: mergedEntries entries

end

namespace Merged

/-- What is wrong with a key. A collection can be none. -/
def keyFault? : Merged → Option Error
  | .scalar s =>
    match s.asKey.toValue with
    | .ok _ => none
    | .error e => some e
  | _ => some .malformed

mutual

/-- What is wrong in a tree, each fault with its depth. What is inside of a collection is one level
deeper than the collection. -/
def faults (depth : Nat) : Merged → List (Nat × Error)
  | .scalar s =>
    match s.toValue with
    | .ok _ => []
    | .error e => [(depth, e)]
  | .sequence items => itemFaults (depth + 1) items
  | .mapping entries => entryFaults (depth + 1) entries
  | .unmerged => [(depth + 1, .malformed)]

/-- What is wrong in some trees. -/
def itemFaults (depth : Nat) : List Merged → List (Nat × Error)
  | [] => []
  | item :: items => item.faults depth ++ itemFaults depth items

/-- What is wrong in some entries. -/
def entryFaults (depth : Nat) : List (Merged × Merged) → List (Nat × Error)
  | [] => []
  | (key, value) :: entries =>
    (key.keyFault?.map fun e => (depth, e)).toList ++ value.faults depth ++
      entryFaults depth entries

end

/-- The fault that is met first. Collections are filled level by level, and on a level from left to
right. -/
def fault? (node : Merged) : Option Error :=
  ((node.faults 0).foldl (fun (best : Option (Nat × Error)) f =>
    if best.any (·.1 ≤ f.1) then best else some f) none).map Prod.snd

mutual

/-- The value of a tree without faults. -/
def toValue : Merged → Value
  | .scalar s => s.asKey.toValue.toOption.getD .null
  | .sequence items => .list (itemValues items)
  | .mapping entries => .map (entryValues [] entries)
  | .unmerged => .map []

/-- The values of some trees. -/
def itemValues : List Merged → List Value
  | [] => []
  | item :: items => item.toValue :: itemValues items

/-- Some entries behind those that are known. -/
def entryValues (known : List (Value × Value)) : List (Merged × Merged) → List (Value × Value)
  | [] => known
  | (key, value) :: entries => entryValues (Value.put known key.toValue value.toValue) entries

end

end Merged

/-- The value of a settings file. Whether it is well-formed is found out before any of its scalars
is looked at. -/
def read (bytes : List UInt8) : Except Error Value := do
  let node := (← Node.ofTokens (tokenize (.ofBytes bytes))).merged
  match node.fault? with
  | some e => .error e
  | none => .ok node.toValue

/-- Reads settings files that keep to the part of the format that is known here. -/
def reader : Settings.Reader :=
  fun bytes => (read bytes).mapError Error.toReadError

end Typeahead.Yaml
