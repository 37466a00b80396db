import Typeahead.Import
import Typeahead.Proofs.SymbolTable.Scan

/-!
What a text imports, told from its tokens alone. In a text without issues each import keyword is followed by names
with dots between them, and these are the imports that the walk over the tree finds.
-/

namespace Typeahead

namespace Import

open Typeahead.Tree

/-! ## Scanning tokens -/

/-- The names at the start of some tokens that each come after a dot. -/
def dotted : List Token → List Token
  | dot :: name :: rest => if dot.kind = .terminal .dot ∧ name.isName then name :: dotted rest else []
  | _ => []

/-- The names in the longest run of names with dots between them that some tokens start with. -/
def run : List Token → List Token
  | [] => []
  | name :: rest => if name.isName then name :: dotted rest else []

/-- The runs after the import keywords among some tokens. -/
def runs : List Token → List (List Token)
  | [] => []
  | token :: rest => if token.kind = .terminal .kwImport then run rest :: runs rest else runs rest

theorem dotted_of_head? {tokens : List Token} (h : ∀ token ∈ tokens.head?, token.kind ≠ .terminal .dot) :
    dotted tokens = [] := by
  unfold dotted
  split
  · rename_i dot name rest
    have hdot : dot.kind ≠ .terminal .dot := h dot rfl
    simp [hdot]
  · rfl

theorem runs_append {w : List Token} (h : ∀ token ∈ w, token.kind ≠ .terminal .kwImport) (after : List Token) :
    runs (w ++ after) = runs after := by
  induction w with
  | nil => rfl
  | cons token w ih =>
      rw [List.forall_mem_cons] at h
      rw [List.cons_append, runs, if_neg h.1, ih h.2]

/-! ## Imports in the grammar -/

/-- The rules that lead to an import keyword. -/
def importing : List Rule :=
  [.file, .preamble, .importList, .importItems, .importHeader]

theorem notMem_of_alternative {rule : Rule} (h : rule ∉ importing) :
    ∀ body ∈ rule.alternatives, .t .kwImport ∉ body ∧ ∀ r ∈ importing, .r r ∉ body := by
  cases rule <;> first | decide | exact absurd (by decide) h

theorem kind_of_derived {s : Symbol} {w : List Token} {t : Tree} (h : Derived s w t) (ht : s ≠ .t .kwImport)
    (hr : ∀ r ∈ importing, s ≠ .r r) : ∀ token ∈ w, token.kind ≠ .terminal .kwImport := by
  revert ht hr
  refine h.induct (P := fun s w _ => s ≠ .t .kwImport → (∀ r ∈ importing, s ≠ .r r) →
    ∀ token ∈ w, token.kind ≠ .terminal .kwImport) ?_ ?_
  · intro a token hk _ ha _
    rw [List.forall_mem_singleton, hk]
    rintro ⟨⟩
    exact ha rfl
  · intro rule body w parts hb hparts _ hrule
    obtain ⟨hkeyword, hrules⟩ := notMem_of_alternative (fun h => hrule rule h rfl) body hb
    refine hparts.forall_tokens fun s hs _ _ hP => hP.2 ?_ ?_
    · rintro rfl
      exact hkeyword hs
    · rintro r hr rfl
      exact hrules r hr hs

/-- Whether what is derived from a symbol begins with a token other than a dot. -/
def leading : Symbol → Bool
  | .t a => a ≠ .dot
  | .r rule => rule ∈ [.fileItems, .topLevelObject, .declaration, .classDeclaration, .functionDeclaration,
      .propertyDeclaration, .packageHeader, .semi]

theorem leading_of_alternative {rule : Rule} (h : leading (.r rule)) :
    ∀ body ∈ rule.alternatives, body.head?.any leading := by
  cases rule <;> first | decide | cases h

theorem head_of_derived {s : Symbol} {w : List Token} {t : Tree} (h : Derived s w t) (hs : leading s) :
    ∃ token rest, w = token :: rest ∧ token.kind ≠ .terminal .dot := by
  revert hs
  refine h.induct (P := fun s w _ => leading s → ∃ token rest, w = token :: rest ∧ token.kind ≠ .terminal .dot) ?_ ?_
  · intro a token hk _ ha
    refine ⟨token, [], rfl, ?_⟩
    rw [hk]
    rintro ⟨⟩
    cases ha
  · intro rule body w parts hb hparts hrule
    have hfirst := leading_of_alternative hrule body hb
    cases hparts with
    | nil => cases hfirst
    | cons hs _ =>
        obtain ⟨token, rest, rfl, hk⟩ := hs.2 hfirst
        exact ⟨token, _, rfl, hk⟩

theorem kept_of_mem {r : Rule} (h : r ∈ [Rule.preamble, .importList, .qualifiedName]) : r.Kept := by
  have hbodies (rule : Rule) (hrule : rule.spliced ∨ rule.collapses) :
      ∀ body ∈ rule.alternatives, ∀ r ∈ [Rule.preamble, .importList, .qualifiedName], .r r ∉ body := by
    cases rule <;> first | decide | simp [Rule.spliced, Rule.collapses] at hrule
  refine ⟨?_, ?_, fun rule hrule body hb => hbodies rule hrule body hb r h⟩
  · revert r
    decide
  · revert r
    decide

/-! ## Names with dots between them -/

theorem dotted_of_forest {w : List Token} {parts : List Tree} (h : Forest Derived [.t .dot, .t .name] w parts) :
    gather [.t .dot, .t .name] parts = w.map leaf ∧ (∀ token ∈ w, token.isMissing = false) ∧
      ∀ after, dotted (w ++ after) = w.filter Token.isName ++ dotted after := by
  cases h with
  | cons hdot h =>
      cases h with
      | cons hname h =>
          cases h
          obtain ⟨dot, rfl, rfl, hdot, hmdot⟩ := hdot.of_terminal
          obtain ⟨name, rfl, rfl, hname, hmname⟩ := hname.of_terminal
          refine ⟨rfl, by simp [hmdot, hmname], fun after => ?_⟩
          simp [dotted, Token.isName, hdot, hname]

/-- The tree of names after dots holds their tokens, and these are read to their end. -/
theorem dotted_of_derived {w : List Token} {t : Tree} (h : Derived (.r .nameTail) w t) :
    t.children = w.map leaf ∧ (∀ token ∈ w, token.isMissing = false) ∧
      ∀ after, dotted (w ++ after) = w.filter Token.isName ++ dotted after := by
  refine h.induct (P := fun s w t => s = .r .nameTail → t.children = w.map leaf ∧
    (∀ token ∈ w, token.isMissing = false) ∧
      ∀ after, dotted (w ++ after) = w.filter Token.isName ++ dotted after) ?_ ?_ rfl
  · intro a token _ _ hs
    cases hs
  · rintro rule body w parts hb hparts ⟨⟩
    have hchildren : (build ⟨.nameTail, body⟩ parts).children = gather body parts := rfl
    rw [hchildren]
    simp only [Rule.alternatives, List.mem_cons, List.not_mem_nil, or_false] at hb
    rcases hb with rfl | rfl
    · exact dotted_of_forest (hparts.imp And.left)
    · cases hparts with
      | cons hfront hlast =>
          obtain ⟨htree, hmissing, hread⟩ := hfront.2 rfl
          obtain ⟨hleaves, hmissing', hread'⟩ := dotted_of_forest (hlast.imp And.left)
          refine ⟨?_, List.forall_mem_append.mpr ⟨hmissing, hmissing'⟩, fun after => ?_⟩
          · rw [gather] at hleaves ⊢
            rw [List.zip_cons_cons, List.flatMap_cons, hleaves, List.map_append, ← htree]
            rfl
          · rw [List.append_assoc, hread, hread', List.filter_append, List.append_assoc]

/-- What is written with dots between some names, and the first of them. -/
def written (names : List Token) : String × Option Token :=
  (".".intercalate (names.map Token.text), names.head?)

theorem ofName?_of_children {t : Tree} {first : Token} {rest : List Token} (hfirst : first.isName)
    (ht : t.children = (first :: rest).map leaf) (hm : ∀ name ∈ first :: rest, name.isMissing = false) :
    ∃ i, ofName? t = some i ∧ (i.name, some i.token) = written (first :: rest.filter Token.isName) := by
  have hnames : t.names = first :: rest.filter Token.isName := by
    rw [Tree.names, ht]
    simp [List.filterMap_map, Function.comp_def, token?, hfirst]
  have hany : ¬ (first :: rest.filter Token.isName).any Token.isMissing := by
    rw [← List.filter_cons_of_pos hfirst, Bool.not_eq_true, List.any_eq_false]
    intro name hname
    simp [hm name (List.mem_of_mem_filter hname)]
  rw [ofName?, hnames]
  refine ⟨_, if_neg hany, ?_⟩
  rw [written, Prod.mk.injEq, ← String.toList_inj, String.toList_intercalate, String.toList_ofList, List.map_map]
  exact ⟨rfl, rfl⟩

/-- What a qualified name imports is read where it stands. -/
theorem run_of_derived {w : List Token} {t : Tree} (h : Derived (.r .qualifiedName) w t) :
    ∃ names i, ofName? t = some i ∧ (i.name, some i.token) = written names ∧
      ∀ after, run (w ++ after) = names ++ dotted after := by
  -- With or without a tail, a name comes first and the rest is read to its end.
  suffices htokens : ∃ name v, w = name :: v ∧ name.isName ∧ t.children = (name :: v).map leaf ∧
      (∀ token ∈ name :: v, token.isMissing = false) ∧
      ∀ after, dotted (v ++ after) = v.filter Token.isName ++ dotted after by
    obtain ⟨name, v, rfl, hname, hchildren, hmissing, hread⟩ := htokens
    obtain ⟨i, hi, hwritten⟩ := ofName?_of_children hname hchildren hmissing
    refine ⟨_, i, hi, hwritten, fun after => ?_⟩
    rw [List.cons_append, run, if_pos hname, hread, List.cons_append]
  obtain ⟨body, hb, parts, hforest, rfl⟩ := h.eq_node rfl
  simp only [Rule.alternatives, List.mem_cons, List.not_mem_nil, or_false] at hb
  rcases hb with rfl | rfl
  · cases hforest with
    | @cons _ _ _ v _ _ hname hforest =>
        obtain ⟨name, rfl, rfl, hname, hm⟩ := hname.of_terminal
        obtain ⟨tail, rfl, htail⟩ := hforest.of_single
        obtain ⟨hchildren, hmissing, hread⟩ := dotted_of_derived htail
        refine ⟨name, v, rfl, by simp [Token.isName, hname], ?_, List.forall_mem_cons.mpr ⟨hm, hmissing⟩, hread⟩
        rw [List.map_cons, ← hchildren]
        exact congrArg (leaf name :: ·) (List.append_nil _)
  · obtain ⟨_, rfl, hname⟩ := hforest.of_single
    obtain ⟨name, rfl, rfl, hname, hm⟩ := hname.of_terminal
    exact ⟨name, [], rfl, by simp [Token.isName, hname], rfl, by simpa using hm, fun _ => rfl⟩

/-! ## Import headers -/

theorem descend_node (r rule : Rule) (span : Option Span) (children : List Tree) :
    descend r [node rule span children] = children.filter (isNode r) :=
  List.append_nil _

theorem descend_gather {r : Rule} (hr : r.Kept) {ss : List Symbol} {w : List Token} {ts : List Tree}
    (h : Forest Derived ss w ts) (rule : Rule) (span : Option Span) :
    descend r [node rule span (gather ss ts)] = ((ss.zip ts).filter (·.1 = .r r)).map Prod.snd := by
  rw [descend_node, hr.filter_gather h]

/-- Some tokens are read as some imports, whatever comes after them but the rest of a name. -/
def Reads (w : List Token) (imports : List Import) : Prop :=
  ∃ names, imports.map (fun i => (i.name, some i.token)) = names.map written ∧
    ∀ after, dotted after = [] → dotted (w ++ after) = [] ∧ runs (w ++ after) = names ++ runs after

namespace Reads

variable {u w : List Token} {is js : List Import}

theorem nil : Reads [] [] :=
  ⟨[], rfl, fun _ h => ⟨h, rfl⟩⟩

theorem append (h : Reads u is) (h' : Reads w js) : Reads (u ++ w) (is ++ js) := by
  obtain ⟨names, himports, hread⟩ := h
  obtain ⟨names', himports', hread'⟩ := h'
  refine ⟨names ++ names', ?_, fun after hafter => ?_⟩
  · rw [List.map_append, List.map_append, himports, himports']
  · obtain ⟨hdotted', hruns'⟩ := hread' after hafter
    obtain ⟨hdotted, hruns⟩ := hread (w ++ after) hdotted'
    rw [List.append_assoc, List.append_assoc]
    exact ⟨hdotted, by rw [hruns, hruns']⟩

/-- Nothing is imported where no keyword stands. -/
theorem of_derived {s : Symbol} {t : Tree} (h : Derived s w t) (hs : leading s) (ht : s ≠ .t .kwImport)
    (hr : ∀ r ∈ importing, s ≠ .r r) : Reads w [] := by
  refine ⟨[], rfl, fun after _ => ⟨?_, runs_append (kind_of_derived h ht hr) after⟩⟩
  obtain ⟨token, rest, rfl, hk⟩ := head_of_derived h hs
  exact dotted_of_head? (by simpa using hk)

theorem header {t : Tree} (h : Derived (.r .importHeader) w t) :
    Reads w ((descend .qualifiedName [t]).filterMap ofName?) := by
  obtain ⟨body, hb, parts, hforest, rfl⟩ := h.eq_node rfl
  rw [descend_gather (r := .qualifiedName) (kept_of_mem (by decide)) hforest]
  -- With or without a semicolon, the name comes after the keyword.
  suffices hparts : ∃ keyword v rest name, w = keyword :: (v ++ rest) ∧ keyword.kind = .terminal .kwImport ∧
      Derived (.r .qualifiedName) v name ∧ Reads rest [] ∧
      ((body.zip parts).filter (·.1 = .r .qualifiedName)).map Prod.snd = [name] by
    obtain ⟨keyword, v, rest, name, rfl, hk, hname, ⟨others, hothers, hrest⟩, hzip⟩ := hparts
    obtain rfl := List.map_eq_nil_iff.mp hothers.symm
    obtain ⟨names, i, hi, hwritten, hrun⟩ := run_of_derived hname
    have hnone := kind_of_derived hname nofun (by decide)
    rw [hzip]
    refine ⟨[names], by simp [hi, hwritten], fun after hafter => ⟨dotted_of_head? (by simp [hk]), ?_⟩⟩
    obtain ⟨hdotted, hruns⟩ := hrest after hafter
    rw [List.cons_append, runs, if_pos hk, List.append_assoc, hrun, hdotted, runs_append hnone, hruns,
      List.append_nil]
    rfl
  simp only [Rule.alternatives, List.mem_cons, List.not_mem_nil, or_false] at hb
  rcases hb with rfl | rfl
  · cases hforest with
    | cons hkeyword hforest =>
        obtain ⟨keyword, rfl, rfl, hk, _⟩ := hkeyword.of_terminal
        cases hforest with
        | @cons _ _ v rest name _ hname hforest =>
            obtain ⟨_, rfl, hsemi⟩ := hforest.of_single
            exact ⟨keyword, v, rest, name, rfl, hk, hname, of_derived hsemi rfl nofun (by decide), rfl⟩
  · cases hforest with
    | cons hkeyword hforest =>
        obtain ⟨keyword, rfl, rfl, hk, _⟩ := hkeyword.of_terminal
        obtain ⟨_, rfl, hname⟩ := hforest.of_single
        exact ⟨keyword, _, [], _, by simp, hk, hname, nil, rfl⟩

theorem items {t : Tree} (h : Derived (.r .importItems) w t) :
    t.children.filter (isNode .importHeader) = t.children ∧
      Reads w ((descend .qualifiedName t.children).filterMap ofName?) := by
  have hheader {t : Tree} {w : List Token} (h : Derived (.r .importHeader) w t) : t.isNode .importHeader := by
    obtain ⟨_, _, _, _, rfl⟩ := h.eq_node rfl
    rfl
  refine h.induct (P := fun s w t => s = .r .importItems → t.children.filter (isNode .importHeader) = t.children ∧
    Reads w ((descend .qualifiedName t.children).filterMap ofName?)) ?_ ?_ rfl
  · intro a token _ _ hs
    cases hs
  · rintro rule body w parts hb hparts ⟨⟩
    have hchildren : (build ⟨.importItems, body⟩ parts).children = gather body parts := rfl
    rw [hchildren]
    simp only [Rule.alternatives, List.mem_cons, List.not_mem_nil, or_false] at hb
    rcases hb with rfl | rfl
    · obtain ⟨t, rfl, ht, _⟩ := hparts.of_single
      have hgather : gather [.r .importHeader] [t] = [t] := rfl
      rw [hgather]
      exact ⟨by simp [hheader ht], header ht⟩
    · cases hparts with
      | cons hfront hlast =>
          obtain ⟨hfilter, hread⟩ := hfront.2 rfl
          obtain ⟨t, rfl, ht, _⟩ := hlast.of_single
          have hgather (front : Tree) :
              gather [.r .importItems, .r .importHeader] [front, t] = front.children ++ [t] := rfl
          rw [hgather, List.filter_append, hfilter, descend, List.flatMap_append, List.filterMap_append]
          exact ⟨by simp [hheader ht], hread.append (header ht)⟩

theorem list {t : Tree} (h : Derived (.r .importList) w t) :
    Reads w ((descend .qualifiedName (descend .importHeader [t])).filterMap ofName?) := by
  obtain ⟨body, hb, parts, hforest, rfl⟩ := h.eq_node rfl
  simp only [Rule.alternatives, List.mem_cons, List.not_mem_nil, or_false] at hb
  rcases hb with rfl | rfl
  · obtain ⟨t, rfl, ht⟩ := hforest.of_single
    obtain ⟨hfilter, hread⟩ := items ht
    have hgather : gather [.r .importItems] [t] = t.children := List.append_nil _
    rwa [descend_node, hgather, hfilter]
  · cases hforest
    exact nil

theorem preamble {t : Tree} (h : Derived (.r .preamble) w t) :
    Reads w ((descend .qualifiedName (descend .importHeader (descend .importList [t]))).filterMap ofName?) := by
  obtain ⟨body, hb, parts, hforest, rfl⟩ := h.eq_node rfl
  rw [descend_gather (r := .importList) (kept_of_mem (by decide)) hforest]
  simp only [Rule.alternatives, List.mem_cons, List.not_mem_nil, or_false] at hb
  rcases hb with rfl | rfl
  · cases hforest with
    | cons hpackage hforest =>
        obtain ⟨_, rfl, hlist⟩ := hforest.of_single
        exact (of_derived hpackage rfl nofun (by decide)).append (list hlist)
  · obtain ⟨_, rfl, hlist⟩ := hforest.of_single
    exact list hlist

theorem file {t : Tree} (h : Derived (.r .file) w t) : Reads w (ofTree t) := by
  obtain ⟨body, hb, parts, hforest, rfl⟩ := h.eq_node rfl
  rw [ofTree, descend_gather (r := .preamble) (kept_of_mem (by decide)) hforest]
  simp only [Rule.alternatives, List.mem_cons, List.not_mem_nil, or_false] at hb
  rcases hb with rfl | rfl
  · cases hforest with
    | cons hpreamble hforest =>
        obtain ⟨_, rfl, hitems⟩ := hforest.of_single
        have hread := (preamble hpreamble).append (of_derived hitems rfl nofun (by decide))
        rwa [List.append_nil] at hread
  · obtain ⟨_, rfl, hpreamble⟩ := hforest.of_single
    exact preamble hpreamble

end Reads

/-- What a text without issues imports is what is written after its import keywords. -/
theorem ofTree_parse {text : String} (h : (parse text).issues = []) :
    (ofTree (parse text).tree).map (fun i => (i.name, some i.token)) =
      (runs (significant (tokenize text))).map written := by
  obtain ⟨names, hnames, hread⟩ := Reads.file (derived_parse h)
  obtain ⟨_, hruns⟩ := hread [] rfl
  rw [List.append_nil] at hruns
  rw [hnames, hruns]
  simp [runs]

end Import

/-! ## Both walks -/

/-- In a text without issues both walks over the tree find what scans of the tokens find. The declared names come in
the order of reading and none comes twice; each import keyword brings what is written after it. -/
theorem walks_eq_scans (text : String) (source : Option String) (h : (parse text).issues = []) :
    SymbolTable.ofTree source (parse text).tree = SymbolTable.scan source [] (significant (tokenize text)) ∧
    (SymbolTable.ofTree source (parse text).tree).Pairwise SymbolEntry.Before ∧
    (Import.ofTree (parse text).tree).map (fun i => (i.name, some i.token)) =
      (Import.runs (significant (tokenize text))).map Import.written := by
  have hscan := SymbolTable.ofTree_parse source h
  refine ⟨hscan, ?_, Import.ofTree_parse h⟩
  rw [hscan]
  exact SymbolTable.pairwise_scan_tokenize source text

/-- Imports with and without dots, and declarations of every kind inside each other. -/
theorem walks_eq_scans_nested :
    let text := "import a.b;import c\nclass P(val x:T)\x7bfun f(y:T)\x7bfor(i in y)x\x7d\x7d"
    (parse text).issues = [] ∧
    SymbolTable.ofTree none (parse text).tree =
      [⟨"P", .type, none, 2, 6⟩, ⟨"x", .value, none, 2, 12⟩, ⟨"f", .function, none, 2, 21⟩,
        ⟨"y", .value, none, 2, 23⟩, ⟨"i", .value, none, 2, 32⟩] ∧
    (Import.ofTree (parse text).tree).map Import.name = ["a.b", "c"] := by
  intro text
  have h : (parse text).issues = [] := by decide +kernel
  have hscans : SymbolTable.scan none [] (significant (tokenize text)) =
      [⟨"P", .type, none, 2, 6⟩, ⟨"x", .value, none, 2, 12⟩, ⟨"f", .function, none, 2, 21⟩,
        ⟨"y", .value, none, 2, 23⟩, ⟨"i", .value, none, 2, 32⟩] ∧
      (Import.runs (significant (tokenize text))).map (fun names => (Import.written names).1) = ["a.b", "c"] := by
    decide +kernel
  obtain ⟨hsymbols, -, himports⟩ := walks_eq_scans text none h
  refine ⟨h, hsymbols.trans hscans.1, ?_⟩
  have hnames := congrArg (List.map Prod.fst) himports
  rw [List.map_map, List.map_map] at hnames
  exact hnames.trans hscans.2

end Typeahead
