import Mathlib.Data.List.Forall2
import Typeahead.Proofs.Completion.Imports

/-!
What becomes of each import: its file is read, or there is one warning about it. What is found is put together from
these outcomes, one for each import and in their order.
-/

namespace Typeahead

/-- What becomes of an import. -/
inductive Import.Outcome where
  | read (path text : String)
  | warned (warning : ImportWarning)

namespace Import.Outcome

/-- The path of a file that was read. -/
def visited? : Outcome → Option String
  | .read path _ => some path
  | .warned _ => none

def warning? : Outcome → Option ImportWarning
  | .read _ _ => none
  | .warned warning => some warning

/-- What a fresh visitor finds in the text of a file. -/
def declares : Outcome → SymbolTable
  | .read path text => (Visitor.visitFile {} (parse text).tree (some path)).table
  | .warned _ => []

/-- The outcome that the files say an import has. -/
inductive Due (fs : FileSystem) (path : String) : Outcome → Prop
  | read {text : String} :
      fs.holds path = .ok true → fs.readText path = .ok text → Due fs path (.read path text)
  | notFound : fs.holds path = .ok false → Due fs path (.warned (.notFound path))
  | unreadable {e : FileError} :
      fs.holds path = .ok true → fs.readText path = .error e → Due fs path (.warned (.unreadable path e))

end Import.Outcome

open Import (Outcome)

namespace Resolution

variable {fs : FileSystem} {path directory : String} {imports : List Import} {b : Bool}

/-- What some outcomes bring together. -/
def ofOutcomes (os : List Outcome) : Resolution :=
  { visited := os.filterMap Outcome.visited?
    warnings := os.filterMap Outcome.warning?
    table := os.flatMap Outcome.declares }

theorem ofOutcomes_append (os os' : List Outcome) :
    ofOutcomes (os ++ os') = (ofOutcomes os).append (ofOutcomes os') := by
  simp [append_of_none, ofOutcomes]

/-- An import of which it can be told whether its file is there has an outcome, and brings what that brings. -/
theorem exists_due (h : fs.holds path = .ok b) : ∃ o, Outcome.Due fs path o ∧ ofPath fs path = ofOutcomes [o] := by
  cases b with
  | false =>
      refine ⟨_, .notFound h, ?_⟩
      rw [ofPath_of_false h]
      rfl
  | true =>
      cases hr : fs.readText path with
      | error e =>
          refine ⟨_, .unreadable h hr, ?_⟩
          simp only [ofPath, h, hr]
          rfl
      | ok text =>
          refine ⟨_, .read h hr, ?_⟩
          simp only [ofPath, h, hr]
          simp [ofOutcomes, Outcome.visited?, Outcome.warning?, Outcome.declares, Visitor.visitFile_eq]

theorem inDirectory_outcomes (h : (inDirectory fs directory imports).error = none) :
    ∃ os, List.Forall₂ (fun i o => Outcome.Due fs (i.path directory) o) imports os ∧
      inDirectory fs directory imports = ofOutcomes os := by
  rw [inDirectory_error_eq_none_iff] at h
  induction imports with
  | nil => exact ⟨[], .nil, rfl⟩
  | cons i imports ih =>
      rw [List.forall_mem_cons] at h
      obtain ⟨b, hb⟩ := h.1
      obtain ⟨o, ho, hpath⟩ := exists_due hb
      obtain ⟨os, hos, hrest⟩ := ih h.2
      refine ⟨[o] ++ os, .cons ho hos, ?_⟩
      rw [inDirectory, hpath, hrest, ofOutcomes_append]

theorem directory_of_error_eq_none {cwd location : String} (h : (ofImports fs cwd location imports).error = none) :
    ∃ directory, Location.directory cwd location = .ok directory ∧
      ofImports fs cwd location imports = inDirectory fs directory imports := by
  cases hd : Location.directory cwd location with
  | error e => simp [ofImports, hd] at h
  | ok directory => exact ⟨directory, rfl, by simp [ofImports, hd]⟩

end Resolution

/-- Where the imports of a document can be resolved, each of them has exactly one outcome: its file was read, or there
is one warning about it. The files that were read and the warnings are listed in the order of the imports. All files
share one visitor; its table has what it held before, and after it what a fresh visitor finds in each of these files. -/
theorem imports_accounted (fs : FileSystem) (cwd location : String) (imports : List Import) (v : Visitor)
    (h : (Resolver.resolve fs cwd location imports v).error = none) :
    let found := Resolver.resolve fs cwd location imports v
    ∃ directory os, Location.directory cwd location = .ok directory ∧
      List.Forall₂ (fun i o => Outcome.Due fs (i.path directory) o) imports os ∧
      found.visited = os.filterMap Outcome.visited? ∧ found.warnings = os.filterMap Outcome.warning? ∧
      found.visitor.table = v.table ++ os.flatMap Outcome.declares := by
  intro found
  have hfound : found.toResolution = _ := Resolver.toResolution_resolve fs cwd location imports v
  rw [Resolution.append_of_none rfl] at hfound
  have herror : (Resolution.ofImports fs cwd location imports).error = none :=
    (congrArg Resolution.error hfound).symm.trans h
  obtain ⟨directory, hdirectory, heq⟩ := Resolution.directory_of_error_eq_none herror
  rw [heq] at hfound herror
  obtain ⟨os, hos, houtcomes⟩ := Resolution.inDirectory_outcomes herror
  rw [houtcomes] at hfound
  exact ⟨directory, os, hdirectory, hos, congrArg Resolution.visited hfound, congrArg Resolution.warnings hfound,
    congrArg Resolution.table hfound⟩

/-- A file imported twice, and between its imports one that is not there and one that is a directory. The visitor comes
from a file of its own. -/
theorem imports_accounted_twice :
    let fs := (((Disk.empty "/w").write "a.mykt" (.file (Utf8.encode "import d val n".toList))).write "b.mykt"
      .directory).fileSystem
    let imports := Import.ofTree (parse "import a import c import b import a").tree
    let found := Resolver.resolve fs "/w" "/w/m.mykt" imports ⟨some "/w/m.mykt", [⟨"o", .value, none, 1, 4⟩]⟩
    found.error = none ∧ found.visited = ["/w/a.mykt", "/w/a.mykt"] ∧
    ∃ os : List Outcome, os.length = 4 ∧ ["/w/a.mykt", "/w/a.mykt"] = os.filterMap Outcome.visited? ∧
      found.warnings = os.filterMap Outcome.warning? ∧
      found.visitor.table = [⟨"o", .value, none, 1, 4⟩] ++ os.flatMap Outcome.declares := by
  intro fs imports found
  have herror : found.error = none := by decide +kernel
  have hlength : imports.length = 4 := by decide +kernel
  have hvisited : found.visited = ["/w/a.mykt", "/w/a.mykt"] := by decide +kernel
  obtain ⟨_, os, _, hos, hread, hwarnings, htable⟩ := imports_accounted fs "/w" "/w/m.mykt" imports _ herror
  exact ⟨herror, hvisited, os, hos.length_eq.symm.trans hlength, hvisited.symm.trans hread, hwarnings, htable⟩

end Typeahead
