import Mathlib.Data.List.Chain
import Typeahead.Proofs.Completion.Imports
import Typeahead.Proofs.Parser.Repetition
import Typeahead.Proofs.Text.Lines
import Typeahead.Proofs.Token.Boundary

/-!
Where imports lead. Whatever a text holds, the files of its imports are beside the document: their names have no slash,
and are neither `.` nor `..`. What comes of a request hangs on no other file.
-/

namespace Typeahead

open Lexer Typeahead.Tree

/-! ## Paths -/

namespace Path

variable {directory file path : String}

theorem named_of_slash {t : String} (h : path.toList = '/' :: t.toList) : Disk.named path = Disk.named t := by
  simp [Disk.named, parts, h, Text.splitOn_mark]

theorem named_intercalate {pieces : List String} (h : ∀ p ∈ pieces, '/' ∉ p.toList) :
    Disk.named ("/".intercalate pieces) = pieces.filter fun part => part != "" && part != "." := by
  cases pieces with
  | nil => decide
  | cons piece pieces =>
      have hpieces : ("/".intercalate (piece :: pieces)).toList.splitOn '/' = (piece :: pieces).map String.toList := by
        rw [String.toList_intercalate]
        exact List.splitOn_intercalate '/' (List.forall_mem_map.mpr h) (by simp)
      rw [Disk.named, parts, hpieces, List.map_map]
      simp [Function.comp_def]

theorem rootSlashes_cases (path : String) : rootSlashes path ∈ ["", "/", "//"] := by
  unfold rootSlashes
  split <;> decide

theorem rootSlashes_append {slashes t : String} (h : slashes ∈ ["", "/", "//"]) (ht : t.toList.head? ≠ some '/') :
    rootSlashes (slashes ++ t) = slashes := by
  cases hcs : t.toList with
  | nil =>
      rw [String.toList_eq_nil_iff.mp hcs, String.append_empty]
      simp only [List.mem_cons, List.not_mem_nil, or_false] at h
      rcases h with rfl | rfl | rfl <;> rfl
  | cons c cs =>
      have hc : c ≠ '/' := by
        rintro rfl
        exact ht (by rw [hcs]; rfl)
      simp only [List.mem_cons, List.not_mem_nil, or_false] at h
      rcases h with rfl | rfl | rfl <;> simp [rootSlashes, String.toList_append, hcs, hc]

theorem slash_notMem_of_named {part : String} (h : part ∈ Disk.named path) : '/' ∉ part.toList := by
  obtain ⟨piece, hpiece, rfl⟩ := List.mem_map.mp (List.mem_of_mem_filter h)
  rw [String.toList_ofList]
  exact Text.notMem_of_mem_splitOn _ piece hpiece

theorem head?_named (path : String) : ("/".intercalate (Disk.named path)).toList.head? ≠ some '/' := by
  cases hnamed : Disk.named path with
  | nil => decide
  | cons part parts =>
      have hmem : part ∈ Disk.named path := by simp [hnamed]
      have hslash := slash_notMem_of_named hmem
      have hne : part ≠ "" := by
        rintro rfl
        simp [Disk.named] at hmem
      obtain ⟨c, cs, hcs⟩ := List.exists_cons_of_ne_nil (mt String.toList_eq_nil_iff.mp hne)
      rw [hcs, List.mem_cons, not_or] at hslash
      cases parts with
      | nil => simpa [String.toList_intercalate, hcs] using Ne.symm hslash.1
      | cons next parts => simpa [String.toList_intercalate, List.intercalate_cons_cons, hcs] using Ne.symm hslash.1

theorem named_rejoined {slashes : String} (h : slashes ∈ ["", "/", "//"]) (path : String) :
    Disk.named (slashes ++ "/".intercalate (Disk.named path)) = Disk.named path := by
  have hkept : Disk.named ("/".intercalate (Disk.named path)) = Disk.named path := by
    rw [named_intercalate fun p hp => slash_notMem_of_named hp, Disk.named, List.filter_filter]
    simp
  have hone : Disk.named ("/" ++ "/".intercalate (Disk.named path)) = Disk.named path := by
    rwa [named_of_slash (String.toList_append ..)]
  simp only [List.mem_cons, List.not_mem_nil, or_false] at h
  rcases h with rfl | rfl | rfl
  · rw [String.empty_append, hkept]
  · exact hone
  · rwa [named_of_slash (t := "/" ++ "/".intercalate (Disk.named path)) (by simp [String.toList_append])]

/-- A path that is tidied has the same root and the same named parts. -/
theorem rootSlashes_and_named_tidy (path : String) :
    rootSlashes (tidy path) = rootSlashes path ∧ Disk.named (tidy path) = Disk.named path := by
  have hroot := rootSlashes_append (rootSlashes_cases path) (head?_named path)
  have hnamed := named_rejoined (rootSlashes_cases path) path
  have htidy : tidy path = if (rootSlashes path ++ "/".intercalate (Disk.named path)).isEmpty then "."
      else rootSlashes path ++ "/".intercalate (Disk.named path) := rfl
  rw [htidy]
  split
  · rename_i hempty
    rw [String.isEmpty_iff.mp hempty] at hroot hnamed
    rw [← hroot, ← hnamed]
    decide
  · exact ⟨hroot, hnamed⟩

/-- A file in a directory: its path is the one of the directory with one more part, which leads nowhere else. -/
structure Child (directory file path : String) : Prop where
  root : rootSlashes path = rootSlashes directory
  named : Disk.named path = Disk.named directory ++ [file]
  proper : file ≠ ".."

theorem named_append (hd : directory = "" ∨ ∃ xs, directory.toList = xs ++ ['/']) (hf : '/' ∉ file.toList)
    (hempty : file ≠ "") (hdot : file ≠ ".") : Disk.named (directory ++ file) = Disk.named directory ++ [file] := by
  have hfile : file.toList.splitOn '/' = [file.toList] := List.splitOn_eq_singleton hf
  rcases hd with rfl | ⟨xs, hxs⟩
  · rw [String.empty_append, Disk.named, parts, hfile]
    simp [hempty, hdot, Disk.named, parts]
  · rw [Disk.named, parts, Disk.named, parts, String.toList_append, hxs, List.append_assoc, List.singleton_append,
      List.splitOn_append_cons_self, List.splitOn_append_cons_self, hfile]
    simp [hempty, hdot]

theorem rootSlashes_append_file (hd : directory = "" ∨ ∃ xs, directory.toList = xs ++ ['/'])
    (hf : '/' ∉ file.toList) : rootSlashes (directory ++ file) = rootSlashes directory := by
  have hhead : file.toList.head? ≠ some '/' := fun h => hf (List.mem_of_head? h)
  rcases hd with rfl | ⟨xs, hxs⟩
  · rw [rootSlashes_append (by decide) hhead]
    rfl
  · cases xs with
    | nil =>
        obtain rfl : directory = "/" := String.toList_inj.mp hxs
        rw [rootSlashes_append (by decide) hhead]
        rfl
    | cons a xs =>
        by_cases ha : a = '/'
        · subst ha
          cases xs with
          | nil =>
              obtain rfl : directory = "//" := String.toList_inj.mp hxs
              rw [rootSlashes_append (by decide) hhead]
              rfl
          | cons b xs =>
              -- Only the first three characters count, and the directory has as many.
              obtain ⟨c, ys, hys⟩ : ∃ c ys, xs ++ ['/'] = c :: ys := List.exists_cons_of_ne_nil (by simp)
              rw [List.cons_append, List.cons_append, hys] at hxs
              by_cases hb : b = '/' <;> by_cases hc : c = '/' <;>
                simp [rootSlashes, String.toList_append, hxs, hb, hc]
        · simp [rootSlashes, String.toList_append, hxs, ha]

/-- A name that has no slash and is not made of dots is a file in the directory that it is written behind. -/
theorem child_append {location cwd : String} (hd : Location.directory cwd location = .ok directory)
    (hf : '/' ∉ file.toList) (hdots : ∀ c ∈ file.toList.head?, c ≠ '.') (hempty : file ≠ "") :
    Child directory file (tidy (directory ++ file)) := by
  obtain ⟨hroot, hnamed⟩ := rootSlashes_and_named_tidy (directory ++ file)
  have hparent : directory = "" ∨ ∃ xs, directory.toList = xs ++ ['/'] := by
    unfold Location.directory at hd
    cases hpath : Location.toPath cwd location with
    | error e => rw [hpath] at hd; cases hd
    | ok path =>
        rw [hpath] at hd
        cases hd
        exact parent_cases path
  have hdot : file ≠ "." := by
    rintro rfl
    exact hdots '.' rfl rfl
  have hdotdot : file ≠ ".." := by
    rintro rfl
    exact hdots '.' rfl rfl
  refine ⟨?_, ?_, hdotdot⟩
  · rw [hroot, rootSlashes_append_file hparent hf]
  · rw [hnamed, named_append hparent hf hempty hdot]

end Path

/-! ## The names of imports -/

namespace Import

/-- A name with dots in it: it begins with a letter or an underscore, and each of its dots stands alone between letters,
digits and underscores. -/
structure Dotted (name : List Char) : Prop where
  ne_nil : name ≠ []
  chars : ∀ c ∈ name, c.isAlphanum ∨ c = '_' ∨ c = '.'
  head : ∀ c ∈ name.head?, c.isAlpha ∨ c = '_'
  last : name.getLast? ≠ some '.'
  single : name.IsChain fun a b => ¬ (a = '.' ∧ b = '.')

namespace Dotted

variable {c : Char} {cs word rest : List Char}

theorem word_of_name (h : isNameStart c) (hcs : ∀ d ∈ cs, isNamePart d) : ∀ d ∈ c :: cs, d.isAlphanum ∨ d = '_' := by
  simp only [isNameStart, isNamePart, Bool.or_eq_true, beq_iff_eq] at h hcs
  rw [List.forall_mem_cons]
  refine ⟨?_, hcs⟩
  rcases h with h | h
  · exact .inl (by simp [Char.isAlphanum, h])
  · exact .inr h

theorem ne_dot {d : Char} (h : d.isAlphanum ∨ d = '_') : d ≠ '.' := by
  rintro rfl
  exact absurd h (by decide)

theorem name (h : isNameStart c) (hcs : ∀ d ∈ cs, isNamePart d) : Dotted (c :: cs) where
  ne_nil := List.cons_ne_nil c cs
  chars d hd := (word_of_name h hcs d hd).imp_right .inl
  head d hd := by
    cases hd
    simpa [isNameStart] using h
  last hlast := ne_dot (word_of_name h hcs _ (List.mem_of_getLast? hlast)) rfl
  single := by
    refine List.Pairwise.isChain (List.pairwise_of_forall_mem_list fun a ha b _ hab => ?_)
    exact ne_dot (word_of_name h hcs a ha) hab.1

theorem append (hw : Dotted word) (hdots : ∀ d ∈ word, d ≠ '.') (hr : Dotted rest) :
    Dotted (word ++ '.' :: rest) where
  ne_nil := List.append_ne_nil_of_left_ne_nil hw.ne_nil _
  chars := by
    rw [List.forall_mem_append, List.forall_mem_cons]
    exact ⟨hw.chars, .inr (.inr rfl), hr.chars⟩
  head d hd := by
    rw [List.head?_append_of_ne_nil _ hw.ne_nil] at hd
    exact hw.head d hd
  last := by
    rw [List.getLast?_append, List.getLast?_cons_of_ne_nil hr.ne_nil, Option.or_of_isSome (by simp [hr.ne_nil])]
    exact hr.last
  single := by
    rw [List.isChain_append, List.isChain_cons]
    refine ⟨hw.single, ⟨?_, hr.single⟩, ?_⟩
    · rintro d hd ⟨_, rfl⟩
      exact absurd (hr.head '.' hd) (by decide)
    · rintro a ha b _ ⟨rfl, _⟩
      exact hdots '.' (List.mem_of_getLast? ha) rfl

/-- Names with dots between them. -/
theorem intercalate {words : List (List Char)} (hne : words ≠ [])
    (h : ∀ w ∈ words, ∃ c cs, w = c :: cs ∧ isNameStart c ∧ ∀ d ∈ cs, isNamePart d) :
    Dotted (['.'].intercalate words) := by
  induction words with
  | nil => exact absurd rfl hne
  | cons w words ih =>
      rw [List.forall_mem_cons] at h
      obtain ⟨⟨c, cs, rfl, hc, hcs⟩, hrest⟩ := h
      cases words with
      | nil => simpa using name hc hcs
      | cons next words =>
          rw [List.intercalate_cons_cons, List.append_assoc, List.singleton_append]
          exact append (name hc hcs) (fun d hd => ne_dot (word_of_name hc hcs d hd)) (ih (by simp) hrest)

/-- A file that is called after such a name is in the directory that it is written behind. -/
theorem child {n cwd location directory : String} (h : Dotted n.toList)
    (hd : Location.directory cwd location = .ok directory) :
    Path.Child directory (n ++ extension) (Path.tidy (directory ++ (n ++ extension))) := by
  have hhead : (n ++ extension).toList.head? = n.toList.head? := by
    rw [String.toList_append, List.head?_append_of_ne_nil _ h.ne_nil]
  refine Path.child_append hd ?_ ?_ ?_
  · rw [String.toList_append, List.mem_append, not_or]
    refine ⟨fun hmem => ?_, by decide⟩
    exact absurd (h.chars '/' hmem) (by decide)
  · rw [hhead]
    rintro d hd rfl
    exact absurd (h.head '.' hd) (by decide)
  · rintro hempty
    rw [hempty] at hhead
    exact h.ne_nil (List.head?_eq_none_iff.mp hhead.symm)

end Dotted

variable {r : Rule} {t : Tree} {ts : List Tree} {i : Import} {text : String}

theorem leaves_of_mem_descend (h : t ∈ descend r ts) : ∃ t' ∈ ts, t.leaves ⊆ t'.leaves := by
  obtain ⟨t', ht', hmem⟩ := List.mem_flatMap.mp h
  exact ⟨t', ht', leaves_of_mem_children (List.mem_of_mem_filter hmem)⟩

/-- An import is made of names in the tree that are all written. -/
theorem exists_names (h : i ∈ ofTree t) :
    ∃ names : List Token, names ≠ [] ∧ (∀ n ∈ names, n ∈ t.leaves ∧ n.isName ∧ n.isMissing = false) ∧
      i.name.toList = ['.'].intercalate (names.map (·.text.toList)) := by
  obtain ⟨name, hname, hi⟩ := List.mem_filterMap.mp h
  have hleaves : name.leaves ⊆ t.leaves := by
    obtain ⟨header, hheader, hinHeader⟩ := leaves_of_mem_descend hname
    obtain ⟨list, hlist, hinList⟩ := leaves_of_mem_descend hheader
    obtain ⟨preamble, hpreamble, hinPreamble⟩ := leaves_of_mem_descend hlist
    obtain ⟨file, hfile, hinFile⟩ := leaves_of_mem_descend hpreamble
    rw [List.mem_singleton.mp hfile] at hinFile
    exact List.Subset.trans hinHeader (List.Subset.trans hinList (List.Subset.trans hinPreamble hinFile))
  unfold ofName? at hi
  split at hi
  · cases hi
  · rename_i first rest hnames
    split at hi
    · cases hi
    · rename_i hany
      cases hi
      refine ⟨first :: rest, List.cons_ne_nil _ _, fun n hn => ⟨?_, ?_, ?_⟩, String.toList_ofList⟩
      · rw [← hnames] at hn
        exact hleaves (names_subset_leaves name hn)
      · rw [← hnames] at hn
        exact List.of_mem_filter hn
      · cases hm : n.isMissing with
        | false => rfl
        | true => exact absurd (List.any_eq_true.mpr ⟨n, hn, hm⟩) hany

/-- Whatever a text holds, its imports are names with dots between them. -/
theorem dotted_of_mem (h : i ∈ ofTree (parse text).tree) : Dotted i.name.toList := by
  obtain ⟨names, hne, hnames, hname⟩ := exists_names h
  rw [hname]
  refine Dotted.intercalate (by simpa using hne) (List.forall_mem_map.mpr fun n hn => ?_)
  obtain ⟨hleaf, hisName, hmissing⟩ := hnames n hn
  have hwritten : n ∈ Typeahead.written (parse text).tree.leaves := List.mem_filter.mpr ⟨hleaf, by simp [hmissing]⟩
  rw [mem_written_leaves_parse, kept_outcomesOf] at hwritten
  exact name_of_mem_tokenize (List.mem_of_mem_filter (List.mem_of_mem_filter hwritten)) hisName

end Import

/-! ## Files that are looked at -/

namespace Resolution

variable {fs fs' : FileSystem} {path directory : String} {imports : List Import}

theorem ofPath_congr (h : fs (Path.tidy path) = fs' (Path.tidy path)) : ofPath fs path = ofPath fs' path := by
  simp only [ofPath, FileSystem.holds, FileSystem.readText, FileSystem.content, h]

theorem inDirectory_congr
    (h : ∀ i ∈ imports, fs (Path.tidy (i.path directory)) = fs' (Path.tidy (i.path directory))) :
    inDirectory fs directory imports = inDirectory fs' directory imports := by
  induction imports with
  | nil => rfl
  | cons i imports ih =>
      rw [List.forall_mem_cons] at h
      rw [inDirectory, inDirectory, ofPath_congr h.1, ih h.2]

end Resolution

/-- The file of an import is in the directory of the document: it is called after a name with dots in it, and its path
is the one of the directory with one more part. A request looks at no other file: on file systems where these are the
same, it comes to the same. -/
theorem imports_beside_document (options : CompletionOptions) (cwd location text directory : String) (c : Caret)
    (h : Location.directory cwd location = .ok directory) :
    let imports := Import.ofTree (parse text).tree
    (∀ i ∈ imports, i.path directory = directory ++ i.name ++ ".mykt" ∧ Import.Dotted i.name.toList ∧
      Path.Child directory (i.name ++ ".mykt") (Path.tidy (i.path directory))) ∧
    ∀ fs fs' : FileSystem,
      (∀ i ∈ imports, fs (Path.tidy (i.path directory)) = fs' (Path.tidy (i.path directory))) →
      Completion.resolution fs cwd location (parse text) = Completion.resolution fs' cwd location (parse text) ∧
      Completion.collect options fs cwd location text c = Completion.collect options fs' cwd location text c := by
  refine ⟨fun i hi => ?_, fun fs fs' hfs => ?_⟩
  · have hdotted := Import.dotted_of_mem hi
    have hchild := hdotted.child h
    rw [← String.append_assoc] at hchild
    exact ⟨rfl, hdotted, hchild⟩
  · have hresolution : Completion.resolution fs cwd location (parse text) =
        Completion.resolution fs' cwd location (parse text) := by
      rw [Completion.resolution_of_directory fs h, Completion.resolution_of_directory fs' h,
        Resolution.inDirectory_congr hfs]
    exact ⟨hresolution, by simp only [Completion.collect_eq, hresolution]⟩

/-- Dots and slashes lead to no other directory: the parser makes up names between the dots and drops the slashes. -/
theorem imports_beside_document_upwards :
    let text := "import a.b import ../../etc/c"
    let collect := fun fs => Completion.collect {} fs "/v" "file:///w/x%20y/m.mykt" text ⟨1, 0⟩
    Location.directory "/v" "file:///w/x%20y/m.mykt" = .ok "/w/x y/" ∧
    (Import.ofTree (parse text).tree).map Import.name = ["a.b", "c"] ∧
    (∀ i ∈ Import.ofTree (parse text).tree, Import.Dotted i.name.toList ∧
      Path.Child "/w/x y/" (i.name ++ ".mykt") (Path.tidy (i.path "/w/x y/"))) ∧
    ∀ content, collect (fun path => if path = "/etc/c.mykt" then .file content else .missing) =
      collect fun _ => .missing := by
  intro text collect
  have hdirectory : Location.directory "/v" "file:///w/x%20y/m.mykt" = .ok "/w/x y/" := by decide +kernel
  have hnames : (Import.ofTree (parse text).tree).map Import.name = ["a.b", "c"] := by decide +kernel
  have hother : ["a.b", "c"].all fun name => Path.tidy ("/w/x y/" ++ name ++ ".mykt") ≠ "/etc/c.mykt" := by
    decide +kernel
  obtain ⟨hplaces, hlocal⟩ := imports_beside_document {} "/v" "file:///w/x%20y/m.mykt" text "/w/x y/" ⟨1, 0⟩ hdirectory
  refine ⟨hdirectory, hnames, fun i hi => (hplaces i hi).2, fun content => (hlocal _ _ fun i hi => ?_).2⟩
  have hmem : i.name ∈ ["a.b", "c"] := hnames ▸ List.mem_map_of_mem hi
  exact if_neg (of_decide_eq_true (List.all_eq_true.mp hother i.name hmem))

end Typeahead
