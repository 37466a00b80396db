import Typeahead.Proofs.Completion.Imports
import Typeahead.Proofs.Import.Rising
import Typeahead.Proofs.Import.Scan

/-!
Warnings about imports. Where none of the imported files is there, each warning is about a block of the preamble: it
names the names of the block, as they are written.
-/

namespace Typeahead

open Typeahead.Tree

variable {t : Tree} {tokens : List Token}

/-! ## The imports of a tree -/

namespace Block

/-- What a block imports. -/
def name (b : Block) : String :=
  ".".intercalate (b.names.map Token.text)

/-- Where a block starts, and its names. -/
def parts (b : Block) : Token × List Token :=
  (b.start, b.names)

end Block

namespace Import

theorem names_of_name {rule : Rule} (h : Shape.Name rule t) : t.names = t.leaves.filter Token.isName := by
  obtain ⟨span, children, rfl, hc⟩ := h
  rw [Tree.names, leaves_node]
  refine congrArg _ ?_
  change children.filterMap token? = children.flatMap leaves
  induction children with
  | nil => rfl
  | cons c children ih =>
      rw [List.forall_mem_cons] at hc
      obtain ⟨⟨token, rfl, _⟩, hc⟩ := hc
      rw [List.flatMap_cons, ← ih hc]
      rfl

theorem ofList_intercalate (names : List Token) :
    String.ofList (['.'].intercalate (names.map (·.text.toList))) = ".".intercalate (names.map Token.text) := by
  rw [← String.toList_inj, String.toList_intercalate, String.toList_ofList, List.map_map]
  rfl

/-- A name is imported if it is clean, as it is written. -/
theorem name_ofName? {rule : Rule} (h : Shape.Name rule t) (k : Token) :
    (ofName? t).toList.map Import.name =
      ([(⟨k, t.leaves.filter Token.isName⟩ : Block)].filter Block.clean).map Block.name := by
  rw [← names_of_name h, ofName?]
  cases t.names with
  | nil => rfl
  | cons first rest =>
      have hclean : (⟨k, first :: rest⟩ : Block).clean = !(first :: rest).any Token.isMissing := by
        simp [Block.clean, List.not_any_eq_all_not]
      cases hany : (first :: rest).any Token.isMissing with
      | true => simp [hclean, hany]
      | false => simpa [hclean, hany, Block.name] using ofList_intercalate (first :: rest)

theorem descend_cons (r : Rule) (t : Tree) (ts : List Tree) : descend r (t :: ts) = descend r [t] ++ descend r ts := by
  simp [descend]

theorem filter_isNode {rule : Rule} {ts : List Tree} (h : ∀ c ∈ ts, c.isNode rule = false) :
    ts.filter (isNode rule) = [] :=
  List.filter_eq_nil_iff.mpr fun c hc => Bool.eq_false_iff.mp (h c hc)

theorem descend_header {span : Option Span} {k : Token} {name : Tree} {rest : List Tree}
    (hname : Shape.Name .qualifiedName name) (hrest : ∀ c ∈ rest, Shape.Leaf [.semicolon] c) :
    descend .qualifiedName [.node .importHeader span (.leaf k :: name :: rest)] = [name] := by
  have hnil : rest.filter (isNode .qualifiedName) = [] := by
    refine filter_isNode fun c hc => ?_
    obtain ⟨token, rfl, _⟩ := hrest c hc
    rfl
  obtain ⟨_, _, rfl, _⟩ := hname
  rw [descend_node, List.filter_cons_of_neg (by exact Bool.false_ne_true), List.filter_cons_of_pos rfl, hnil]

theorem names_semicolons {rest : List Tree} (h : ∀ c ∈ rest, Shape.Leaf [.semicolon] c) :
    (rest.flatMap leaves).filter Token.isName = [] := by
  rw [List.filter_eq_nil_iff]
  intro z hz
  obtain ⟨c, hc, hz⟩ := List.mem_flatMap.mp hz
  obtain ⟨token, rfl, hk⟩ := Shape.leaf_singleton_iff.mp (h c hc)
  rw [List.mem_singleton.mp hz, Token.isName, hk]
  decide

/-- The imports of some headers are those of their blocks. -/
theorem ofHeaders {headers : List Tree} (h : ∀ c ∈ headers, Shape.Header c) :
    ∃ bs : List Block, (∀ front, blocks (front ++ headers.flatMap leaves) = bs.reverse ++ blocks front) ∧
      ((descend .qualifiedName headers).filterMap ofName?).map Import.name =
        (bs.filter Block.clean).map Block.name := by
  induction headers with
  | nil => exact ⟨[], fun front => by simp, rfl⟩
  | cons c headers ih =>
      rw [List.forall_mem_cons] at h
      obtain ⟨bs, hblocks, hnames⟩ := ih h.2
      obtain ⟨_, _, hleaves, _, hplain⟩ := Shaped.header_leaves (s := .r .importHeader) h.1 (by decide)
      obtain ⟨span, k, name, rest, rfl, hk, hname, hrest⟩ := h.1
      rw [leaves_node, List.flatMap_cons, List.flatMap_cons, leaves_leaf, List.singleton_append,
        List.cons.injEq] at hleaves
      obtain ⟨rfl, rfl⟩ := hleaves
      refine ⟨⟨k, name.leaves.filter Token.isName⟩ :: bs, fun front => ?_, ?_⟩
      · rw [List.flatMap_cons, leaves_node, List.flatMap_cons, List.flatMap_cons, leaves_leaf, List.singleton_append,
          ← List.append_assoc, hblocks, blocks_append_cons hk hplain, List.filter_append, names_semicolons hrest,
          List.append_nil, List.reverse_cons, List.append_assoc]
        rfl
      · have hsingle : [name].filterMap ofName? = (ofName? name).toList := by
          cases hn : ofName? name <;> simp [hn]
        rw [descend_cons, descend_header hname hrest, List.filterMap_append, List.map_append, hnames, hsingle,
          name_ofName? hname k, ← List.map_append, ← List.filter_append, List.singleton_append]

/-- The imports of a preamble are those of its blocks. -/
theorem ofPreamble (h : Shape.Preamble t) :
    ((descend .qualifiedName (descend .importHeader (descend .importList [t]))).filterMap ofName?).map Import.name =
      ((blocks t.leaves).reverse.filter Block.clean).map Block.name := by
  obtain ⟨span, front, list, rfl, hfront, hlist⟩ := h
  obtain ⟨span', headers, rfl, hheaders⟩ := hlist
  obtain ⟨bs, hblocks, hnames⟩ := ofHeaders hheaders
  have hlist : descend .importList [.node .preamble span (front ++ [.node .importList span' headers])] =
      [.node .importList span' headers] := by
    have hnil : front.filter (isNode .importList) = [] := by
      refine filter_isNode fun c hc => ?_
      obtain ⟨_, _, rfl, _⟩ := hfront c hc
      rfl
    rw [descend_node, List.filter_append, hnil]
    rfl
  have hheader : descend .importHeader [.node .importList span' headers] = headers := by
    rw [descend_node, List.filter_eq_self]
    intro c hc
    obtain ⟨_, _, _, _, rfl, _⟩ := hheaders c hc
    rfl
  -- A package header has no keyword, so no block begins in it.
  have hplain : ∀ z ∈ front.flatMap leaves, z.kind ≠ .terminal .kwImport := by
    intro z hz
    obtain ⟨c, hc, hz⟩ := List.mem_flatMap.mp hz
    exact (hfront c hc).plain (fun _ hc => hc) z hz
  have hfirst : blocks ([] ++ front.flatMap leaves) = [] := blocks_append_plain hplain
  rw [List.nil_append] at hfirst
  rw [hlist, hheader, hnames, leaves_node, List.flatMap_append, List.flatMap_singleton, leaves_node, hblocks, hfirst,
    List.append_nil, List.reverse_reverse]

theorem ofTree_of_none {span : Option Span} {children : List Tree} (h : ∀ c ∈ children, c.isNode .preamble = false) :
    ofTree (.node .file span children) = [] := by
  rw [ofTree, descend_node, filter_isNode h]
  rfl

/-- The imports of a file are those of the blocks in its preamble. -/
theorem of_fronted (h : Fronted tokens t) :
    ofTree t = [] ∨ (ofTree t).map Import.name = ((blocks tokens).reverse.filter Block.clean).map Block.name := by
  obtain ⟨span, children, rfl, ⟨preamble, rest, rfl, hp, hrest, rfl⟩ | hnone⟩ := h
  · right
    have hpreamble : descend .preamble [.node .file span (preamble :: rest)] = [preamble] := by
      rw [descend_node, List.filter_cons_of_pos hp.isNode, filter_isNode fun c hc => isNode_of_inner (hrest c hc)]
    rw [ofTree, hpreamble, ofPreamble hp]
  · exact .inl (ofTree_of_none hnone)

/-- A file has one preamble at most. -/
theorem eq_of_fronted {tokens' : List Token} (h : Fronted tokens t) (h' : Fronted tokens' t) :
    ofTree t = [] ∨ tokens' = tokens := by
  obtain ⟨span, children, rfl, ⟨preamble, rest, rfl, hp, _, rfl⟩ | hnone⟩ := h
  · obtain ⟨_, _, ⟨⟩, ⟨_, _, ⟨⟩, _, _, rfl⟩ | hnone⟩ := h'
    · exact .inr rfl
    · have hnode := hnone preamble List.mem_cons_self
      rw [hp.isNode] at hnode
      cases hnode
  · exact .inl (ofTree_of_none hnone)

end Import

/-! ## What warnings are about -/

/-- Some names of a text that make up an import. It starts with an import keyword before them, or with the first of
them if such a keyword was missing there; they come one after another, and no other import keyword stands between. -/
structure Introduced (text : String) (start : Token) (names : List Token) : Prop where
  ne_nil : names ≠ []
  mem : ∀ n ∈ names, n ∈ tokenize text ∧ n.isName
  ordered : names.Pairwise (·.start.offset ≤ ·.start.offset)
  origin : (start ∈ tokenize text ∧ start.kind = .terminal .kwImport ∧
      ∀ n ∈ names, start.start.offset < n.start.offset) ∨
    (names.head? = some start ∧ .missingBefore .kwImport start ∈ (parse text).issues)
  alone : ∀ u ∈ tokenize text, u.kind = .terminal .kwImport → start.start.offset < u.start.offset →
    ∀ n ∈ names, n.start.offset < u.start.offset

theorem eq_of_offset {text : String} {u v : Token} (hu : u ∈ tokenize text) (hv : v ∈ tokenize text)
    (h : u.start.offset = v.start.offset) : u = v := by
  have hnodup : ((tokenize text).map (·.start.offset)).Nodup :=
    List.pairwise_map.mpr ((pairwise_tokenize text).imp Nat.ne_of_lt)
  exact List.inj_on_of_nodup_map hnodup hu hv h

theorem Block.Good.introduced {text : String} {b : Block}
    (h : b.Good (significant (tokenize text)) (parse text).issues) (hc : b.clean)
    (hk : b.keyword.kind = .terminal .kwImport) (hn : ∀ n ∈ b.names, n.isName) :
    Introduced text b.start b.names where
  ne_nil := (clean_iff.mp hc).1
  mem n hmem := ⟨List.mem_of_mem_filter (h.mem n hmem), hn n hmem⟩
  ordered := h.ordered
  origin := by
    rcases h.origin with hkeyword | ⟨hm, hissue⟩
    · have hkeyword := List.mem_of_mem_filter hkeyword
      rw [start_of_written (isMissing_of_mem_tokenize hkeyword)]
      refine .inl ⟨hkeyword, hk, fun n hmem => Nat.lt_of_le_of_ne (h.after n hmem) fun heq => ?_⟩
      -- A name is no keyword, so the two do not stand at the same place.
      obtain rfl := eq_of_offset hkeyword (List.mem_of_mem_filter (h.mem n hmem)) heq
      have hname := hn _ hmem
      rw [Token.isName, hk] at hname
      cases hname
    · have hhead := head?_of_missing hm hc
      exact .inr ⟨hhead, hissue _ hhead⟩
  alone u hu hku hlt := by
    refine h.alone u (List.mem_filter.mpr ⟨hu, ?_⟩) hku (Nat.lt_of_le_of_lt (h.keyword_le_start hc) hlt)
    rw [hku]
    rfl

/-! ## Missing files -/

theorem Completion.warnings_of_false {options : CompletionOptions} {fs : FileSystem}
    {cwd location text directory : String} {c : Caret} (h : Location.directory cwd location = .ok directory)
    (hfs : ∀ i ∈ Import.ofTree (parse text).tree, fs.holds (i.path directory) = .ok false) :
    (collect options fs cwd location text c).warnings =
      ((Import.ofTree (parse text).tree).map Import.name).map fun name => .notFound (directory ++ name ++ ".mykt") := by
  simp only [collect_eq, resolution_of_directory fs h, Resolution.inDirectory_of_false hfs, List.map_map]
  exact List.map_congr_left fun i _ => rfl

/-- Where none of the imported files is there, each warning is about an import of the text, and names its file after
the names that it is made of, with dots between them. The warnings come in the order of the imports. If no search made
before the preamble is complete leaves tokens behind, no two are about the same import, the names of each come before
the next one starts, and none has a name twice. -/
theorem missing_files_warned (options : CompletionOptions) (fs : FileSystem) (cwd location text directory : String)
    (c : Caret) (h : Location.directory cwd location = .ok directory)
    (hfs : ∀ i ∈ Import.ofTree (parse text).tree, fs.holds (i.path directory) = .ok false) :
    ∃ found : List (Token × List Token),
      (Completion.collect options fs cwd location text c).warnings = found.map (fun f =>
        .notFound (directory ++ ".".intercalate (f.2.map Token.text) ++ ".mykt")) ∧
      (∀ f ∈ found, Introduced text f.1 f.2) ∧
      found.Pairwise (fun f g => f.1.start.offset ≤ g.1.start.offset) ∧
      ((∀ s ∈ searches text, s.Early → s.Idle) →
        found.Pairwise (fun f g => f.1.start.offset < g.1.start.offset) ∧
        found.Pairwise (fun f g => ∀ n ∈ f.2, n.start.offset < g.1.start.offset) ∧
        ∀ f ∈ found, f.2.Pairwise fun a b => a.start.offset < b.start.offset) := by
  rw [Completion.warnings_of_false h hfs]
  obtain ⟨tokens, hfront, horderly⟩ := orderly_parse text
  by_cases hnil : Import.ofTree (parse text).tree = []
  · rw [hnil]
    exact ⟨[], rfl, List.forall_mem_nil _, .nil, fun _ => ⟨.nil, .nil, List.forall_mem_nil _⟩⟩
  · have hnames := (Import.of_fronted hfront).resolve_left hnil
    refine ⟨((blocks tokens).reverse.filter Block.clean).map Block.parts, ?_, ?_, ?_, fun hidle => ?_⟩
    · rw [hnames, List.map_map, List.map_map]
      exact List.map_congr_left fun b _ => rfl
    · intro f hf
      obtain ⟨b, hb, rfl⟩ := List.mem_map.mp hf
      obtain ⟨hb, hc⟩ := List.mem_filter.mp hb
      rw [List.mem_reverse] at hb
      obtain ⟨hk, hn⟩ := kinds_of_mem_blocks b hb
      exact (horderly.good b hb hc).introduced hc hk hn
    · exact (List.pairwise_map (f := Block.parts)).mpr horderly.starts
    · obtain ⟨tokens', hfront', hrising⟩ := rising_parse hidle
      obtain rfl := (Import.eq_of_fronted hfront hfront').resolve_left hnil
      obtain ⟨hbefore, hblocks⟩ := pairwise_blocks hrising
      have hstarts := hbefore.imp fun {f g} h => h f.start List.mem_cons_self
      have hnext := hbefore.imp fun {f g} h => fun n (hn : n ∈ f.names) => h n (List.mem_cons_of_mem _ hn)
      refine ⟨(List.pairwise_map (f := Block.parts)).mpr hstarts, (List.pairwise_map (f := Block.parts)).mpr hnext,
        fun f hf => ?_⟩
      obtain ⟨b, hb, rfl⟩ := List.mem_map.mp hf
      obtain ⟨hb, hc⟩ := List.mem_filter.mp hb
      exact hblocks b (List.mem_reverse.mp hb) hc

/-- A keyword is missing before the last name of the imports. The search before the stray parenthesis repeats a
declaration, but that is after the preamble. -/
theorem missing_files_warned_unmarked :
    let text := "import a.b c\nval m val n)"
    Location.directory "/w" "/w/m.mykt" = .ok "/w/" ∧ (∃ s ∈ searches text, ¬ s.Idle) ∧
    ∃ found : List (Token × List Token),
      [ImportWarning.notFound "/w/a.b.mykt", .notFound "/w/c.mykt"] = found.map (fun f =>
        .notFound ("/w/" ++ ".".intercalate (f.2.map Token.text) ++ ".mykt")) ∧
      (∀ f ∈ found, Introduced text f.1 f.2) ∧
      found.Pairwise (fun f g => f.1.start.offset < g.1.start.offset) ∧
      found.Pairwise (fun f g => ∀ n ∈ f.2, n.start.offset < g.1.start.offset) ∧
      ∀ f ∈ found, f.2.Pairwise fun a b => a.start.offset < b.start.offset := by
  intro text
  have hdirectory : Location.directory "/w" "/w/m.mykt" = .ok "/w/" := by decide +kernel
  have hidle : (∃ s ∈ searches text, ¬ s.Idle) ∧ ∀ s ∈ searches text, s.Early → s.Idle := by decide +kernel
  have hwarnings : (Completion.collect {} (fun _ => .missing) "/w" "/w/m.mykt" text ⟨1, 0⟩).warnings =
      [.notFound "/w/a.b.mykt", .notFound "/w/c.mykt"] := by decide +kernel
  obtain ⟨found, hfound, hintroduced, -, hstrict⟩ :=
    missing_files_warned {} (fun _ => .missing) "/w" "/w/m.mykt" text "/w/" ⟨1, 0⟩ hdirectory fun _ _ => rfl
  exact ⟨hdirectory, hidle.1, found, hwarnings ▸ hfound, hintroduced, hstrict hidle.2⟩

/-- The searches before a stray token leave behind what they read: an import is warned about six times, and the last
part of a name is in its path again and again. Where a keyword is only missing, one is put in, and its import is warned
about once like any other. -/
theorem import_warned_again :
    let warned := fun text => (Completion.collect {} (fun _ => .missing) "/w" "/w/m.mykt" text ⟨1, 0⟩).warnings
    let keywords := fun text => ((tokenize text).filter (·.kind = .terminal .kwImport)).length
    let found := fun name => ImportWarning.notFound ("/w/" ++ name ++ ".mykt")
    Location.directory "/w" "/w/m.mykt" = .ok "/w/" ∧
    (keywords "import a import b )" = 2 ∧
      warned "import a import b )" = found "a" :: List.replicate 6 (found "b")) ∧
    warned "import a.b.c +" = [found ("a.b" ++ String.join (List.replicate 29 ".c"))] ∧
    (keywords "import a b" = 1 ∧ warned "import a b" = [found "a", found "b"]) := by
  decide +kernel

end Typeahead
