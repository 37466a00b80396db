import Typeahead.Import

/-!
What imports bring, each taken by itself. The resolver hands one visitor from file to file, and the visitor remembers in
which file it is; still, what they come to is what the files bring one by one, put together in the order of the imports.
-/

namespace Typeahead

/-! ## Resolutions -/

/-- What resolving some imports has brought. -/
structure Resolution where
  /-- The paths of the files that were read. -/
  visited : List String := []
  warnings : List ImportWarning := []
  /-- What these files declare. -/
  table : SymbolTable := []
  /-- What put an end to it, if anything did. -/
  error : Option ImportError := none

namespace Resolution

/-- What one import brings. -/
def ofPath (fs : FileSystem) (path : String) : Resolution :=
  match fs.holds path with
  | .error e => { error := some (.file e) }
  | .ok false => { warnings := [.notFound path] }
  | .ok true =>
    match fs.readText path with
    | .error e => { warnings := [.unreadable path e] }
    | .ok text =>
      { visited := [path], table := SymbolTable.ofTree (some path) (parse text).tree }

/-- One resolution after another; an error ends it. -/
def append (a b : Resolution) : Resolution :=
  match a.error with
  | some _ => a
  | none =>
    ⟨a.visited ++ b.visited, a.warnings ++ b.warnings, a.table ++ b.table, b.error⟩

/-- What the imports in a directory bring. -/
def inDirectory (fs : FileSystem) (directory : String) : List Import → Resolution
  | [] => {}
  | i :: rest =>
    (ofPath fs (i.path directory)).append (inDirectory fs directory rest)

/-- What the imports of a document bring. -/
def ofImports (fs : FileSystem) (cwd location : String) (imports : List Import) : Resolution :=
  match Location.directory cwd location with
  | .error e => { error := some (.location e) }
  | .ok directory => inDirectory fs directory imports

variable {fs : FileSystem} {path directory : String} {imports : List Import} {b : Bool} {e : FileError}

theorem ofPath_of_error (h : fs.holds path = .error e) : ofPath fs path = { error := some (.file e) } := by
  simp [ofPath, h]

theorem ofPath_of_false (h : fs.holds path = .ok false) : ofPath fs path = { warnings := [.notFound path] } := by
  simp [ofPath, h]

/-- A file that is there, but cannot be read, is no error. -/
theorem error_ofPath (h : fs.holds path = .ok b) : (ofPath fs path).error = none := by
  cases b with
  | false => rw [ofPath_of_false h]
  | true => cases hr : fs.readText path <;> simp [ofPath, h, hr]

theorem append_of_error {a : Resolution} {error : ImportError} (h : a.error = some error) (c : Resolution) :
    a.append c = a := by
  simp [append, h]

theorem append_of_none {a : Resolution} (h : a.error = none) (c : Resolution) :
    a.append c = ⟨a.visited ++ c.visited, a.warnings ++ c.warnings, a.table ++ c.table, c.error⟩ := by
  simp [append, h]

theorem append_empty (a : Resolution) : a.append {} = a := by
  cases h : a.error with
  | none => simp [append_of_none h, ← h]
  | some error => exact append_of_error h _

theorem append_assoc (a c d : Resolution) : (a.append c).append d = a.append (c.append d) := by
  cases ha : a.error with
  | some error => rw [append_of_error ha, append_of_error ha, append_of_error ha]
  | none =>
      cases hc : c.error with
      | some error =>
          have herror : (a.append c).error = some error := by rw [append_of_none ha, hc]
          rw [append_of_error hc, append_of_error herror]
      | none => simp [append_of_none ha, append_of_none hc, append_of_none (a := ⟨_, _, _, none⟩) rfl, hc]

/-- Imports are resolved up to the first of which it cannot be told whether its file is there. -/
theorem inDirectory_error {error : ImportError} (h : (inDirectory fs directory imports).error = some error) :
    ∃ front i back e, imports = front ++ i :: back ∧ (∀ j ∈ front, ∃ b, fs.holds (j.path directory) = .ok b) ∧
      fs.holds (i.path directory) = .error e ∧ error = .file e := by
  induction imports with
  | nil => cases h
  | cons i imports ih =>
      rw [inDirectory] at h
      cases hi : fs.holds (i.path directory) with
      | error e =>
          rw [ofPath_of_error hi, append_of_error rfl] at h
          exact ⟨[], i, imports, e, rfl, List.forall_mem_nil _, hi, (Option.some.inj h).symm⟩
      | ok b =>
          rw [append_of_none (error_ofPath hi)] at h
          obtain ⟨front, j, back, e, rfl, hfront, hj, rfl⟩ := ih h
          exact ⟨i :: front, j, back, e, rfl, List.forall_mem_cons.mpr ⟨⟨b, hi⟩, hfront⟩, hj, rfl⟩

theorem inDirectory_error_eq_none_iff :
    (inDirectory fs directory imports).error = none ↔ ∀ i ∈ imports, ∃ b, fs.holds (i.path directory) = .ok b := by
  induction imports with
  | nil => simp [inDirectory]
  | cons i imports ih =>
      rw [inDirectory, List.forall_mem_cons, ← ih]
      cases hi : fs.holds (i.path directory) with
      | error e => simp [ofPath_of_error hi, append]
      | ok b => simp [append_of_none (error_ofPath hi)]

/-- Without any of the files there is one warning for each import. -/
theorem inDirectory_of_false (h : ∀ i ∈ imports, fs.holds (i.path directory) = .ok false) :
    inDirectory fs directory imports = { warnings := imports.map fun i => .notFound (i.path directory) } := by
  induction imports with
  | nil => rfl
  | cons i imports ih =>
      rw [List.forall_mem_cons] at h
      rw [inDirectory, ofPath_of_false h.1, ih h.2, append_of_none rfl]
      rfl

end Resolution

/-! ## The resolver -/

namespace Resolver

/-- What a resolver has brought so far. In which file its visitor is does not matter. -/
def toResolution (r : Resolver) : Resolution :=
  ⟨r.visited, r.warnings, r.visitor.table, r.error⟩

/-- An import adds what its file brings by itself. -/
theorem toResolution_step (fs : FileSystem) (directory : String) (r : Resolver) (i : Import) :
    (r.step fs directory i).toResolution = r.toResolution.append (.ofPath fs (i.path directory)) := by
  cases hr : r.error with
  | some error => simp [step, hr, Resolution.append_of_error (a := r.toResolution) hr]
  | none =>
      rw [step, hr, Resolution.append_of_none hr, Resolution.ofPath]
      cases hh : fs.holds (i.path directory) with
      | error e => simp [toResolution]
      | ok found =>
          cases found with
          | false => simp [toResolution, warn, hr]
          | true =>
              cases ht : fs.readText (i.path directory) <;>
                simp [process, ht, toResolution, warn, hr, Visitor.visitFile_eq]

theorem toResolution_foldl (fs : FileSystem) (directory : String) (r : Resolver) (imports : List Import) :
    (imports.foldl (step fs directory) r).toResolution =
      r.toResolution.append (.inDirectory fs directory imports) := by
  induction imports generalizing r with
  | nil => exact (Resolution.append_empty _).symm
  | cons i imports ih => rw [List.foldl_cons, ih, toResolution_step, Resolution.append_assoc, Resolution.inDirectory]

/-- From whatever visitor a resolver starts, the imports add to it what they bring by themselves. -/
theorem toResolution_resolve (fs : FileSystem) (cwd location : String) (imports : List Import) (v : Visitor) :
    (resolve fs cwd location imports v).toResolution =
      Resolution.append { table := v.table } (.ofImports fs cwd location imports) := by
  rw [resolve, Resolution.ofImports]
  cases Location.directory cwd location with
  | error e => simp [toResolution, Resolution.append_of_none]
  | ok directory => exact toResolution_foldl fs directory { visitor := v } imports

end Resolver

end Typeahead
