import Mathlib.Control.Monad.Basic
import Typeahead.Completion
import Typeahead.Disk
import Typeahead.Proofs.Import.Resolution
import Typeahead.Proofs.Suggestion.Distinct

/-!
The part of imports in completion. An import that cannot be read costs a warning and no more, unless it cannot even be
told whether its file is there: this ends the request. Whatever the imported files hold, they only add suggestions after
those of the document itself.
-/

namespace Typeahead

/-! ## Looking for a file -/

/-- Whether a status tells that something is there, or that nothing is. -/
def Status.conclusive : Status → Bool
  | .forbidden | .nameTooLong => false
  | .missing | .blocked | .directory | .file _ | .unreadable | .unnameable => true

namespace FileSystem

variable {fs : FileSystem} {path : String}

theorem exists_holds_eq_ok (h : (fs (Path.tidy path)).conclusive) : ∃ b, fs.holds path = .ok b := by
  unfold holds
  cases hs : fs (Path.tidy path) <;> simp_all [Status.conclusive]

theorem exists_holds_eq_error (h : (fs (Path.tidy path)).conclusive = false) : ∃ e, fs.holds path = .error e := by
  unfold holds
  cases hs : fs (Path.tidy path) <;> simp_all [Status.conclusive]

theorem conclusive_iff : (fs (Path.tidy path)).conclusive ↔ ∃ b, fs.holds path = .ok b := by
  refine ⟨exists_holds_eq_ok, fun ⟨b, hb⟩ => ?_⟩
  cases hc : (fs (Path.tidy path)).conclusive with
  | true => rfl
  | false =>
      obtain ⟨e, he⟩ := exists_holds_eq_error hc
      cases hb.symm.trans he

end FileSystem

/-! ## Completion -/

namespace Completion

variable {options : CompletionOptions} {fs : FileSystem} {cwd location text directory : String} {c : Caret}

/-- The names that the document itself declares. -/
def ownTable (location text : String) : SymbolTable :=
  SymbolTable.ofTree (some location) (parse text).tree

/-- The suggestions for a document without its imports. -/
def own (options : CompletionOptions) (location text : String) (c : Caret) : List Suggestion :=
  Suggestion.suggest options.filter options.operators (parse text) (ownTable location text) c

/-- What the imports of a parsed document bring. A document without imports needs no location. -/
def resolution (fs : FileSystem) (cwd location : String) (p : Parse) : Resolution :=
  match Import.ofTree p.tree with
  | [] => {}
  | imports => Resolution.ofImports fs cwd location imports

theorem toResolution_visited (fs : FileSystem) (cwd location text : String) :
    (visited fs cwd location (parse text)).toResolution =
      Resolution.append { table := ownTable location text } (resolution fs cwd location (parse text)) := by
  have hown : (Visitor.visitFile {} (parse text).tree (some location)).table = ownTable location text := by
    rw [Visitor.visitFile_eq]
    rfl
  rw [visited, resolution]
  cases Import.ofTree (parse text).tree with
  | nil => simp [Resolver.toResolution, Resolution.append_of_none, hown]
  | cons i imports => simp only [Resolver.toResolution_resolve, hown]

/-- Completion is done with what the document declares and what its imports bring after that. -/
theorem collect_eq (options : CompletionOptions) (fs : FileSystem) (cwd location text : String) (c : Caret) :
    let found := resolution fs cwd location (parse text)
    collect options fs cwd location text c =
      { warnings := found.warnings
        result := found.error.elim
          (.ok (Suggestion.suggest options.filter options.operators (parse text)
            (ownTable location text ++ found.table) c)) .error } := by
  have hvisited := toResolution_visited fs cwd location text
  rw [Resolution.append_of_none rfl] at hvisited
  have hwarnings := congrArg Resolution.warnings hvisited
  have htable := congrArg Resolution.table hvisited
  have herror := congrArg Resolution.error hvisited
  simp only [Resolver.toResolution, List.nil_append] at hwarnings htable herror
  simp only [collect, hwarnings, htable, herror]
  cases (resolution fs cwd location (parse text)).error <;> rfl

theorem resolution_of_directory (fs : FileSystem) (h : Location.directory cwd location = .ok directory) (p : Parse) :
    resolution fs cwd location p = Resolution.inDirectory fs directory (Import.ofTree p.tree) := by
  unfold resolution
  split
  · rename_i hnil
    rw [hnil]
    rfl
  · rw [Resolution.ofImports, h]

theorem resolution_of_nil {p : Parse} (h : Import.ofTree p.tree = []) : resolution fs cwd location p = {} := by
  unfold resolution
  rw [h]

theorem result_of_none (h : (resolution fs cwd location (parse text)).error = none) :
    (collect options fs cwd location text c).result =
      .ok (Suggestion.suggest options.filter options.operators (parse text)
        (ownTable location text ++ (resolution fs cwd location (parse text)).table) c) := by
  simp only [collect_eq, h, Option.elim_none]

theorem result_of_some {error : ImportError} (h : (resolution fs cwd location (parse text)).error = some error) :
    (collect options fs cwd location text c).result = .error error := by
  simp only [collect_eq, h, Option.elim_some]

theorem exists_result_iff :
    (∃ suggestions, (collect options fs cwd location text c).result = .ok suggestions) ↔
      (resolution fs cwd location (parse text)).error = none := by
  cases he : (resolution fs cwd location (parse text)).error with
  | none => exact iff_of_true ⟨_, result_of_none he⟩ rfl
  | some error => simp [result_of_some he]

theorem error_of_result {error : ImportError} (h : (collect options fs cwd location text c).result = .error error) :
    (resolution fs cwd location (parse text)).error = some error := by
  cases he : (resolution fs cwd location (parse text)).error with
  | none => cases (result_of_none he).symm.trans h
  | some other => rw [Except.error.inj ((result_of_some he).symm.trans h)]

theorem directory_of_none (h : (resolution fs cwd location (parse text)).error = none) :
    Import.ofTree (parse text).tree = [] ∨ ∃ directory, Location.directory cwd location = .ok directory := by
  cases hd : Location.directory cwd location with
  | ok directory => exact .inr ⟨directory, rfl⟩
  | error e =>
      refine .inl ?_
      unfold resolution Resolution.ofImports at h
      split at h
      · rename_i hnil
        exact hnil
      · simp [hd] at h

/-- Where none of the imported files is there, nothing is suggested but what the document itself gives. -/
theorem result_of_false
    (hd : Import.ofTree (parse text).tree = [] ∨ ∃ directory, Location.directory cwd location = .ok directory)
    (h : ∀ directory, Location.directory cwd location = .ok directory →
      ∀ i ∈ Import.ofTree (parse text).tree, fs.holds (i.path directory) = .ok false) :
    (collect options fs cwd location text c).result = .ok (own options location text c) := by
  have hempty : (resolution fs cwd location (parse text)).table = [] ∧
      (resolution fs cwd location (parse text)).error = none := by
    rcases hd with hnil | ⟨directory, hd⟩
    · rw [resolution_of_nil hnil]
      exact ⟨rfl, rfl⟩
    · rw [resolution_of_directory fs hd, Resolution.inDirectory_of_false (h directory hd)]
      exact ⟨rfl, rfl⟩
  rw [result_of_none hempty.2, hempty.1, List.append_nil]
  rfl

end Completion

/-- A request with a location that names a path is answered exactly if it can be told of every import whether its file
is there. If not, it fails with what went wrong at the first such import. -/
theorem collect_answers_iff (options : CompletionOptions) (fs : FileSystem) (cwd location text path : String)
    (c : Caret) (h : Location.toPath cwd location = .ok path) :
    let imports := Import.ofTree (parse text).tree
    let status := fun i : Import => fs (Path.tidy (i.path (Path.parent path)))
    ((∃ suggestions, (Completion.collect options fs cwd location text c).result = .ok suggestions) ↔
      ∀ i ∈ imports, (status i).conclusive) ∧
    ∀ error, (Completion.collect options fs cwd location text c).result = .error error →
      ∃ front i back e, imports = front ++ i :: back ∧ (∀ j ∈ front, (status j).conclusive) ∧
        fs.holds (i.path (Path.parent path)) = .error e ∧ error = .file e := by
  have hdirectory : Location.directory cwd location = .ok (Path.parent path) := by
    rw [Location.directory, h]
    rfl
  have hresolution := Completion.resolution_of_directory fs hdirectory (parse text)
  refine ⟨?_, fun error herror => ?_⟩
  · rw [Completion.exists_result_iff, hresolution, Resolution.inDirectory_error_eq_none_iff]
    simp only [FileSystem.conclusive_iff]
  · have hfound := Completion.error_of_result herror
    rw [hresolution] at hfound
    obtain ⟨front, i, back, e, himports, hfront, hi, rfl⟩ := Resolution.inDirectory_error hfound
    exact ⟨front, i, back, e, himports, fun j hj => FileSystem.conclusive_iff.mpr (hfront j hj), hi, rfl⟩

/-- A file that may not be read, one that holds no text and a directory do not stand in the way. -/
theorem collect_answers_unreadable :
    let fs : FileSystem := fun path =>
      if path = "/w/a.mykt" then .unreadable else if path = "/w/b.mykt" then .file [0xff] else .directory
    Location.toPath "/w" "/w/m.mykt" = .ok "/w/m.mykt" ∧
    ∃ suggestions, (Completion.collect {} fs "/w" "/w/m.mykt" "import a import b import c" ⟨1, 0⟩).result =
      .ok suggestions := by
  intro fs
  have hpath : Location.toPath "/w" "/w/m.mykt" = .ok "/w/m.mykt" := by decide +kernel
  have hstatus : ∀ i ∈ Import.ofTree (parse "import a import b import c").tree,
      (fs (Path.tidy (i.path (Path.parent "/w/m.mykt")))).conclusive := by decide +kernel
  exact ⟨hpath, (collect_answers_iff {} fs "/w" "/w/m.mykt" _ _ ⟨1, 0⟩ hpath).1.mpr hstatus⟩

/-- A request fails on an import whose name is too long for a file, and on one in a directory that may not be
searched. -/
theorem collect_fails_without_status :
    Location.toPath "/w" "/w/m.mykt" = .ok "/w/m.mykt" ∧
    (Completion.collect {} (fun _ => .nameTooLong) "/w" "/w/m.mykt" "import a" ⟨1, 0⟩).result =
      .error (.file (.nameTooLong "/w/a.mykt")) ∧
    (Completion.collect {} (fun _ => .forbidden) "/w" "/w/m.mykt" "import a" ⟨1, 0⟩).result =
      .error (.file (.denied "/w/a.mykt")) := by
  decide +kernel

/-- Whatever imported files hold, they only append: where a request is answered, its suggestions are those given where
none of the imported files is there, and after them names that these files declare, each with a label of its own. -/
theorem imports_only_append (options : CompletionOptions) (fs fs₀ : FileSystem) (cwd location text : String) (c : Caret)
    (suggestions : List Suggestion)
    (h : (Completion.collect options fs cwd location text c).result = .ok suggestions)
    (h₀ : ∀ directory, Location.directory cwd location = .ok directory →
      ∀ i ∈ Import.ofTree (parse text).tree, fs₀.holds (i.path directory) = .ok false) :
    ∃ added, suggestions = Completion.own options location text c ++ added ∧
      (Completion.collect options fs₀ cwd location text c).result = .ok (Completion.own options location text c) ∧
      ∀ s ∈ added, s.label ∉ (Completion.own options location text c).map (·.label) ∧
        ∃ entry ∈ (Completion.resolution fs cwd location (parse text)).table, s = Suggestion.ofEntry entry := by
  have hfound := Completion.exists_result_iff.mp ⟨suggestions, h⟩
  obtain ⟨added, hsuggest, hadded⟩ := Suggestion.suggest_append options.filter options.operators (parse text)
    (Completion.ownTable location text) (Completion.resolution fs cwd location (parse text)).table c
  rw [Completion.result_of_none hfound, hsuggest, Except.ok.injEq] at h
  exact ⟨added, h.symm, Completion.result_of_false (Completion.directory_of_none hfound) h₀, hadded⟩

/-- The imported file declares a name of the document once more, as a function, and another one. -/
theorem imports_only_append_redeclared :
    let text := "import b\nval n = n"
    let fs := ((Disk.empty "/w").write "b.mykt" (.file (Utf8.encode "fun n() val nu".toList))).fileSystem
    let result := fun fs => (Completion.collect {} fs "/w" "/w/m.mykt" text ⟨2, 9⟩).result
    result fs = .ok [⟨"null", none⟩, ⟨"n", some .value⟩, ⟨"nu", some .value⟩] ∧
    ∃ own added, result (fun _ => .missing) = .ok own ∧ result fs = .ok (own ++ added) := by
  intro text fs result
  have h : result fs = .ok [⟨"null", none⟩, ⟨"n", some .value⟩, ⟨"nu", some .value⟩] := by decide +kernel
  obtain ⟨added, happend, hown, -⟩ := imports_only_append {} fs (fun _ => .missing) "/w" "/w/m.mykt" text ⟨2, 9⟩ _ h
    fun _ _ _ _ => rfl
  exact ⟨h, _, added, hown, h.trans (congrArg _ happend)⟩

end Typeahead
