import Typeahead.Proofs.Parser.Derived
import Typeahead.SymbolTable

/-!
What a text declares, told from its tokens alone. In a text without issues a name is declared if the tokens next to
it say so, and a scan that looks no further finds what the walk over the tree finds.
-/

namespace Typeahead

namespace SymbolTable

open Typeahead.Tree

variable {source : Option String}

/-! ## Scanning tokens -/

/-- The entry for a name. -/
def entry (source : Option String) (kind : SymbolKind) (name : Token) : SymbolEntry :=
  ⟨name.text, kind, source, name.start.line, name.start.column - 1⟩

/-- What the tokens before a name, nearest first, say that it stands for. -/
def introduced? : List Token.Kind → Option SymbolKind
  | .terminal .kwClass :: _ => some .type
  | .terminal .kwFun :: _ => some .function
  | .terminal .kwVal :: _ => some .value
  | .terminal .kwVar :: _ => some .value
  | .terminal .lpar :: .terminal .kwFor :: _ => some .value
  | _ => none

/-- What the token after a name says that it stands for. -/
def annotated? : List Token → Option SymbolKind
  | [] => none
  | token :: _ => if token.kind = .terminal .colon then some .value else none

/-- What a token stands for if it is a name and is declared where it stands. -/
def declared? (before : List Token.Kind) (token : Token) (after : List Token) : Option SymbolKind :=
  if token.isName then (introduced? before).or (annotated? after) else none

/-- The names that are declared among some tokens, which come after others, as the tokens next to them say. -/
def scan (source : Option String) (before : List Token.Kind) : List Token → SymbolTable
  | [] => []
  | token :: rest =>
    ((declared? before token rest).map (entry source · token)).toList ++ scan source (token.kind :: before) rest

/-!
## Scanning without looking ahead

What a tree covers ends before the token that comes next. So that a scan can be cut where trees are, a name with a
colon after it is found at the colon.
-/

/-- What a scan keeps in sight. -/
structure Sight where
  before : List Token.Kind
  /-- The token just before, if it is a name that nothing introduces. -/
  name : Option Token

namespace Sight

/-- What is found at a token. -/
def found (source : Option String) (s : Sight) (token : Token) : SymbolTable :=
  if token.kind = .terminal .colon then
    (s.name.map (entry source .value)).toList
  else if token.isName then
    ((introduced? s.before).map (entry source · token)).toList
  else
    []

/-- What is in sight after a token. -/
def next (s : Sight) (token : Token) : Sight :=
  ⟨token.kind :: s.before, if token.isName ∧ introduced? s.before = none then some token else none⟩

/-- What is found among some tokens. -/
def spot (source : Option String) (s : Sight) : List Token → SymbolTable
  | [] => []
  | token :: rest => s.found source token ++ (s.next token).spot source rest

/-- What is in sight after some tokens. -/
def after (s : Sight) (w : List Token) : Sight :=
  w.foldl next s

theorem spot_append (s : Sight) (u w : List Token) :
    s.spot source (u ++ w) = s.spot source u ++ (s.after u).spot source w := by
  induction u generalizing s with
  | nil => rfl
  | cons token u ih => simp [spot, ih, after]

theorem after_append (s : Sight) (u w : List Token) : s.after (u ++ w) = (s.after u).after w :=
  List.foldl_append

/-- What is found at the token after a name instead of at the name makes no difference. -/
theorem spot_eq (s : Sight) (tokens : List Token) :
    s.spot source tokens =
      ((annotated? tokens).bind fun kind => s.name.map (entry source kind)).toList ++
        scan source s.before tokens := by
  induction tokens generalizing s with
  | nil => rfl
  | cons token rest ih =>
      by_cases hk : token.kind = .terminal .colon
      · have hname : token.isName = false := by simp [Token.isName, hk]
        simp [spot, found, next, scan, declared?, annotated?, ih, hk, hname]
      · have hnone : annotated? (token :: rest) = none := if_neg hk
        by_cases hname : token.isName
        · cases hi : introduced? s.before with
          | none =>
              cases ha : annotated? rest <;> simp [spot, found, next, scan, declared?, ih, hk, hnone, hname, hi, ha]
          | some kind => simp [spot, found, next, scan, declared?, ih, hk, hnone, hname, hi]
        · simp [spot, found, next, scan, declared?, ih, hk, hnone, hname]

/-- Nothing in sight introduces a name, nor begins to. -/
structure Neutral (s : Sight) : Prop where
  introduced : introduced? s.before = none
  head : s.before.head? ≠ some (.terminal .kwFor)

end Sight

/-! ## Declarations in the grammar -/

/-- The terminals that introduce names, or begin to. -/
def introducers : List Terminal :=
  [.kwClass, .kwFun, .kwVal, .kwVar, .kwFor]

theorem introduced?_cons {a : Terminal} {before : List Token.Kind} (ha : a ∉ introducers)
    (hb : before.head? ≠ some (.terminal .kwFor)) : introduced? (.terminal a :: before) = none := by
  unfold introduced?
  split <;> simp_all [introducers]

theorem Sight.Neutral.next {s : Sight} {token : Token} {a : Terminal} (h : s.Neutral)
    (hk : token.kind = .terminal a) (ha : a ∉ introducers) : (s.next token).Neutral := by
  have hfor : a ≠ .kwFor := by
    rintro rfl
    exact ha (by decide)
  constructor
  · rw [Sight.next, hk]
    exact introduced?_cons ha h.head
  · simp [Sight.next, hk, hfor]

/-- Whether some symbols declare nothing themselves, after what may end in a name or not: none of them introduces a
name, and no colon comes after one. -/
def quiet : Bool → List Symbol → Bool
  | _, [] => true
  | named, .t a :: rest => a ∉ introducers && !(named && a = .colon) && quiet (a = .name) rest
  | _, .r rule :: rest => quiet (rule ≠ .functionParameters) rest

/-- What introduces a name of a kind. -/
def introductions : SymbolKind → List (List Terminal)
  | .type => [[.kwClass]]
  | .function => [[.kwFun]]
  | .value => [[.kwVal], [.kwVar], [.kwFor, .lpar]]

/-- How what declares a name of a kind begins. -/
def headings (kind : SymbolKind) : List (List Terminal) :=
  (introductions kind).map (· ++ [.name]) ++ if kind = .value then [[.name, .colon]] else []

theorem introduced?_of_introductions {kind : SymbolKind} {terminals : List Terminal}
    (h : terminals ∈ introductions kind) (before : List Token.Kind) :
    introduced? ((terminals.map .terminal).reverse ++ before) = some kind := by
  revert h
  cases kind <;> simp only [introductions, List.mem_cons, List.not_mem_nil, or_false]
  · rintro (rfl | rfl | rfl) <;> rfl
  · rintro rfl
    rfl
  · rintro rfl
    rfl

theorem notMem_of_introductions {kind : SymbolKind} :
    ∀ terminals ∈ introductions kind, .name ∉ terminals ∧ .colon ∉ terminals := by
  cases kind <;> decide

theorem kind_of_introductions {kind : SymbolKind} {terminals : List Terminal} (ht : terminals ∈ introductions kind)
    {us : List Token} (hus : us.map Token.kind = terminals.map .terminal) :
    ∀ u ∈ us, u.isName = false ∧ u.kind ≠ .terminal .colon := by
  intro u hu
  obtain ⟨hname, hcolon⟩ := notMem_of_introductions terminals ht
  have hmem : u.kind ∈ terminals.map Token.Kind.terminal := hus ▸ List.mem_map_of_mem hu
  obtain ⟨a, ha, hk⟩ := List.mem_map.mp hmem
  rw [Token.isName, ← hk]
  constructor
  · rw [beq_eq_false_iff_ne]
    rintro ⟨⟩
    exact hname ha
  · rintro ⟨⟩
    exact hcolon ha

theorem quiet_of_alternative {rule : Rule} (h : declares rule = none) :
    ∀ body ∈ rule.alternatives, quiet true body := by
  cases rule <;> first | decide | cases h

theorem heading_of_alternative {rule : Rule} {kind : SymbolKind} (h : declares rule = some kind) :
    ∀ body ∈ rule.alternatives, ∃ heading ∈ headings kind,
      heading.map .t <+: body ∧ quiet false (body.drop heading.length) := by
  cases rule <;> cases h <;> decide

/-! ## Walking over trees -/

@[simp] theorem ofTree_leaf (token : Token) : ofTree source (leaf token) = [] := rfl

@[simp] theorem ofTree_node (rule : Rule) (span : Option Span) (children : List Tree) :
    ofTree source (node rule span children) =
      (declaration? source (node rule span children)).toList ++ children.flatMap (ofTree source) := by
  rw [ofTree, subtrees_node, List.filterMap_cons, List.filterMap_flatMap]
  cases declaration? source (node rule span children) <;> rfl

theorem declaration?_of_declares {rule : Rule} {span : Option Span} {children : List Tree}
    (h : declares rule = none) : declaration? source (node rule span children) = none := by
  simp [declaration?, h]

theorem declares_of_spliced {rule : Rule} (h : rule.spliced) : declares rule = none := by
  cases rule <;> first | rfl | cases h

theorem declares_of_collapses {rule : Rule} (h : rule.collapses) : declares rule = none := by
  cases rule <;> first | rfl | cases h

theorem ofTree_share {s : Symbol} {w : List Token} {t : Tree} (h : Derived s w t) :
    (share (s, t)).flatMap (ofTree source) = ofTree source t := by
  cases s with
  | t a => simp [share, Symbol.spliced]
  | r rule =>
      by_cases hs : rule.spliced
      · obtain ⟨_, _, _, _, rfl⟩ := h.eq_node (not_collapses_of_spliced hs)
        simp [share, Symbol.spliced, hs, children, declaration?_of_declares (declares_of_spliced hs)]
      · simp [share, Symbol.spliced, hs]

theorem ofTree_gather {symbols : List Symbol} {w : List Token} {parts : List Tree}
    (h : Forest Derived symbols w parts) :
    (gather symbols parts).flatMap (ofTree source) = parts.flatMap (ofTree source) := by
  induction h with
  | nil => rfl
  | cons hs _ ih =>
      rw [gather] at ih ⊢
      rw [List.zip_cons_cons, List.flatMap_cons, List.flatMap_append, ofTree_share hs, ih, List.flatMap_cons]

/-- What a tree of a rule that declares nothing declares is declared in its parts. -/
theorem ofTree_build {p : Production} {w : List Token} {parts : List Tree} (h : Forest Derived p.body w parts)
    (hp : declares p.rule = none) : ofTree source (build p parts) = parts.flatMap (ofTree source) := by
  rw [← ofTree_gather h]
  rcases collapsed_or_node p parts with ⟨_, hchild⟩ | hnode
  · simp [hchild]
  · simp [hnode, declaration?_of_declares hp]

/-! ## Both agree -/

namespace Sight

variable {s : Sight}

theorem before_after (s : Sight) (us : List Token) :
    (s.after us).before = (us.map Token.kind).reverse ++ s.before := by
  induction us generalizing s with
  | nil => rfl
  | cons u us ih =>
      have hafter : s.after (u :: us) = (s.next u).after us := rfl
      rw [hafter, ih, List.map_cons, List.reverse_cons, List.append_assoc]
      rfl

theorem spot_eq_nil {us : List Token} (h : ∀ u ∈ us, u.isName = false ∧ u.kind ≠ .terminal .colon) :
    s.spot source us = [] := by
  induction us generalizing s with
  | nil => rfl
  | cons u us ih =>
      obtain ⟨hname, hcolon⟩ := h u List.mem_cons_self
      rw [spot, ih fun u hu => h u (List.mem_cons_of_mem _ hu), List.append_nil]
      simp [found, hname, hcolon]

/-- A name is found after what introduces it. -/
theorem spot_introduced {kind : SymbolKind} {terminals : List Terminal} (ht : terminals ∈ introductions kind)
    {us : List Token} (hus : us.map Token.kind = terminals.map .terminal) {name : Token}
    (hname : name.kind = .terminal .name) :
    s.spot source (us ++ [name]) = [entry source kind name] ∧ (s.after (us ++ [name])).Neutral ∧
      (s.after (us ++ [name])).name = none := by
  have hi : introduced? (s.after us).before = some kind := by
    rw [before_after, hus]
    exact introduced?_of_introductions ht s.before
  have hafter : s.after (us ++ [name]) = (s.after us).next name := s.after_append us [name]
  refine ⟨?_, ⟨?_, ?_⟩, ?_⟩
  · rw [spot_append, spot_eq_nil (kind_of_introductions ht hus)]
    simp [spot, found, Token.isName, hname, hi]
  · rw [hafter, Sight.next, hname]
    rfl
  · simp [hafter, Sight.next, hname]
  · simp [hafter, Sight.next, hi]

/-- A name is found before a colon. -/
theorem Neutral.spot_annotated (h : s.Neutral) {name colon : Token} (hname : name.kind = .terminal .name)
    (hcolon : colon.kind = .terminal .colon) :
    s.spot source [name, colon] = [entry source .value name] ∧ (s.after [name, colon]).Neutral ∧
      (s.after [name, colon]).name = none := by
  have hi := h.introduced
  refine ⟨?_, ⟨?_, ?_⟩, ?_⟩
  · simp [spot, found, Sight.next, Token.isName, hname, hcolon, hi]
  · simp only [after, List.foldl_cons, List.foldl_nil, Sight.next, hcolon]
    rfl
  · simp [after, Sight.next, hcolon]
  · simp [after, Sight.next, Token.isName, hcolon]

/-- The name in a heading is found. -/
theorem Neutral.spot_heading (h : s.Neutral) (source : Option String) {kind : SymbolKind}
    {terminals : List Terminal} (ht : terminals ∈ headings kind) {us : List Token} (hus : us.map Token.kind = terminals.map .terminal) :
    ∃ name, (us.filter Token.isName).head? = some name ∧ s.spot source us = [entry source kind name] ∧
      (s.after us).Neutral ∧ (s.after us).name = none := by
  rcases List.mem_append.mp ht with hi | ha
  · obtain ⟨terminals, hterminals, rfl⟩ := List.mem_map.mp hi
    rw [List.map_append] at hus
    obtain ⟨us, names, rfl, hbefore, hnames⟩ := List.map_eq_append_iff.mp hus
    obtain ⟨name, _, rfl, hname, hnil⟩ := List.map_eq_cons_iff.mp hnames
    obtain rfl := List.map_eq_nil_iff.mp hnil
    refine ⟨name, ?_, spot_introduced hterminals hbefore hname⟩
    have hnone : us.filter Token.isName = [] := by
      rw [List.filter_eq_nil_iff]
      intro u hu
      simp [(kind_of_introductions hterminals hbefore u hu).1]
    simp [List.filter_append, hnone, Token.isName, hname]
  · split at ha
    · rename_i hkind
      obtain rfl := List.mem_singleton.mp ha
      obtain ⟨name, _, rfl, hname, hcolons⟩ := List.map_eq_cons_iff.mp hus
      obtain ⟨colon, _, rfl, hcolon, hnil⟩ := List.map_eq_cons_iff.mp hcolons
      obtain rfl := List.map_eq_nil_iff.mp hnil
      refine ⟨name, by simp [Token.isName, hname], ?_⟩
      rw [hkind]
      exact h.spot_annotated hname hcolon
    · cases ha

end Sight

/-- From wherever nothing is introduced, a scan finds what a tree declares among the tokens that it derives. -/
def Spotted (source : Option String) (symbol : Symbol) (w : List Token) (t : Tree) : Prop :=
  ∀ rule, symbol = .r rule → ∀ s : Sight, s.Neutral →
    s.spot source w = ofTree source t ∧ (s.after w).Neutral ∧
      (rule = .functionParameters → (s.after w).name = none)

theorem spotted_quiet {symbols : List Symbol} {w : List Token} {trees : List Tree}
    (h : Forest (fun s w t => Derived s w t ∧ Spotted source s w t) symbols w trees) {named : Bool}
    (hq : quiet named symbols) {s : Sight} (hs : s.Neutral) (hn : named = false → s.name = none) :
    s.spot source w = trees.flatMap (ofTree source) ∧ (s.after w).Neutral := by
  induction h generalizing named s with
  | nil => exact ⟨rfl, hs⟩
  | @cons symbol symbols u w t trees hsymbol _ ih =>
      obtain ⟨hderived, hspotted⟩ := hsymbol
      rw [Sight.spot_append, Sight.after_append, List.flatMap_cons]
      cases symbol with
      | t a =>
          obtain ⟨token, rfl, rfl, hk, -⟩ := hderived.of_terminal
          simp only [quiet, Bool.and_eq_true, decide_eq_true_eq, Bool.not_eq_true'] at hq
          obtain ⟨⟨ha, hcolon⟩, hq⟩ := hq
          have hfound : s.found source token = [] := by
            -- A colon comes only where no name is left that it could declare.
            by_cases hc : a = .colon
            · have hname : s.name = none := hn (by simpa [hc] using hcolon)
              simp [Sight.found, hk, hc, hname]
            · simp [Sight.found, hk, hc, hs.introduced]
          have hname : decide (a = .name) = false → (s.next token).name = none := by
            intro hne
            simp_all [Sight.next, Token.isName]
          have hrest := ih hq (hs.next hk ha) hname
          simpa [Sight.spot, Sight.after, hfound] using hrest
      | r rule =>
          obtain ⟨hspot, hneutral, hname⟩ := hspotted rule rfl s hs
          have hrest := ih hq hneutral (by simpa using hname)
          rw [hspot, hrest.1]
          exact ⟨rfl, hrest.2⟩

theorem closing_of_functionParameters :
    ∀ body ∈ Rule.functionParameters.alternatives, body.getLast? = some (.t .rpar) := by
  decide

theorem name_after_functionParameters {body : List Symbol} {w : List Token} {parts : List Tree}
    (hb : body ∈ Rule.functionParameters.alternatives) (h : Forest Derived body w parts) (s : Sight) :
    (s.after w).name = none := by
  obtain ⟨front, rfl⟩ := List.getLast?_eq_some_iff.mp (closing_of_functionParameters body hb)
  obtain ⟨u, v, _, _, rfl, _, _, hv⟩ := h.of_append
  obtain ⟨_, _, hclosing⟩ := hv.of_single
  obtain ⟨token, rfl, _, hk, _⟩ := hclosing.of_terminal
  simp [Sight.after, Sight.next, Token.isName, hk]

/-- What a rule with a heading declares is the name in its heading. -/
theorem declaration?_of_heading {rule : Rule} {kind : SymbolKind} (hd : declares rule = some kind) {us : List Token}
    {name : Token} (hname : (us.filter Token.isName).head? = some name) (hm : name.isMissing = false)
    (span : Option Span) (children : List Tree) :
    declaration? source (node rule span (us.map leaf ++ children)) = some (entry source kind name) := by
  have hnames : (node rule span (us.map leaf ++ children)).names.head? = some name := by
    simp [Tree.names, Tree.children, Function.comp_def, token?, hname]
  simp [declaration?, hd, hnames, hm, entry]

theorem spotted_of_declares {rule : Rule} {kind : SymbolKind} (hd : declares rule = some kind) {body : List Symbol}
    (hb : body ∈ rule.alternatives) {w : List Token} {parts : List Tree}
    (h : Forest (fun s w t => Derived s w t ∧ Spotted source s w t) body w parts) {s : Sight} (hs : s.Neutral) :
    s.spot source w = ofTree source (build ⟨rule, body⟩ parts) ∧ (s.after w).Neutral := by
  have hc : rule.collapses = false := by
    cases hc : rule.collapses with
    | false => rfl
    | true => cases hd.symm.trans (declares_of_collapses hc)
  obtain ⟨terminals, hheading, ⟨rest, rfl⟩, hquiet⟩ := heading_of_alternative hd body hb
  rw [List.drop_left' (List.length_map ..)] at hquiet
  obtain ⟨us, v, heads, trees, rfl, rfl, hus, hv⟩ := h.of_append
  obtain ⟨rfl, hkinds, hmissing⟩ := (hus.imp And.left).terminals
  obtain ⟨name, hname, hspot, hneutral, hnone⟩ := hs.spot_heading source hheading hkinds
  obtain ⟨hspots, hafter⟩ := spotted_quiet hv hquiet hneutral fun _ => hnone
  have hm : name.isMissing = false :=
    hmissing name (List.mem_of_mem_filter (List.mem_of_head? hname))
  have hbuild : build ⟨rule, terminals.map .t ++ rest⟩ (us.map leaf ++ trees) =
      node rule (cover (us.map leaf ++ trees)) (us.map leaf ++ gather rest trees) := by
    have hlength : us.length = terminals.length := by simpa using congrArg List.length hkinds
    simp [build, hc, gather_terminals hlength]
  have hleaves : (us.map leaf).flatMap (ofTree source) = [] := by simp [List.flatMap_map]
  rw [hbuild, ofTree_node, declaration?_of_heading hd hname hm, List.flatMap_append, hleaves,
    ofTree_gather (hv.imp And.left), Sight.spot_append, Sight.after_append, hspot, hspots]
  exact ⟨rfl, hafter⟩

theorem spotted {symbol : Symbol} {w : List Token} {t : Tree} (h : Derived symbol w t) :
    Spotted source symbol w t := by
  refine h.induct ?_ ?_
  · intro a token _ _ rule hrule
    cases hrule
  · rintro rule body w parts hb hparts _ ⟨⟩ s hs
    have hforest : Forest Derived body w parts := hparts.imp And.left
    have hspot : s.spot source w = ofTree source (build ⟨rule, body⟩ parts) ∧ (s.after w).Neutral := by
      cases hd : declares rule with
      -- Only a heading brings something of its own; the rest is found in the parts, one after another.
      | none =>
          rw [ofTree_build hforest hd]
          exact spotted_quiet hparts (quiet_of_alternative hd body hb) hs nofun
      | some kind => exact spotted_of_declares hd hb hparts hs
    refine ⟨hspot.1, hspot.2, ?_⟩
    rintro rfl
    exact name_after_functionParameters hb hforest s

/-- What the tree of a text without issues declares is what a scan of the text's tokens finds. -/
theorem ofTree_parse {text : String} (source : Option String) (h : (parse text).issues = []) :
    ofTree source (parse text).tree = scan source [] (significant (tokenize text)) := by
  have hneutral : Sight.Neutral ⟨[], none⟩ := ⟨rfl, nofun⟩
  have hspotted : Spotted source (.r .file) (significant (tokenize text)) (parse text).tree :=
    spotted (derived_parse h)
  rw [← (hspotted .file rfl ⟨[], none⟩ hneutral).1, Sight.spot_eq]
  simp

/-! ## The order of what is found -/

theorem mem_scan {before : List Token.Kind} {tokens : List Token} {e : SymbolEntry}
    (h : e ∈ scan source before tokens) : ∃ token ∈ tokens, ∃ kind, e = entry source kind token := by
  induction tokens generalizing before with
  | nil => cases h
  | cons token rest ih =>
      rcases List.mem_append.mp h with hfound | hrest
      · rw [Option.mem_toList, Option.map_eq_some_iff] at hfound
        obtain ⟨kind, _, rfl⟩ := hfound
        exact ⟨token, List.mem_cons_self, kind, rfl⟩
      · obtain ⟨token', ht, hkind⟩ := ih hrest
        exact ⟨token', List.mem_cons_of_mem _ ht, hkind⟩

theorem pairwise_scan {before : List Token.Kind} {tokens : List Token} {R : SymbolEntry → SymbolEntry → Prop}
    (h : tokens.Pairwise fun a b => ∀ kind kind', R (entry source kind a) (entry source kind' b)) :
    (scan source before tokens).Pairwise R := by
  induction tokens generalizing before with
  | nil => exact .nil
  | cons token rest ih =>
      obtain ⟨hfirst, hrest⟩ := List.pairwise_cons.mp h
      cases hd : declared? before token rest with
      | none => simpa [scan, hd] using ih hrest
      | some kind =>
          simp only [scan, hd, Option.map_some, Option.toList_some, List.singleton_append, List.pairwise_cons]
          refine ⟨fun e he => ?_, ih hrest⟩
          obtain ⟨token', ht, kind', rfl⟩ := mem_scan he
          exact hfirst token' ht kind kind'

end SymbolTable

/-- Whether an entry is for a name before that of another in the order of reading. -/
def SymbolEntry.Before (e e' : SymbolEntry) : Prop :=
  e.line < e'.line ∨ e.line = e'.line ∧ e.column < e'.column

theorem Position.one_le_column_after {p : Position} (h : 1 ≤ p.column) (cs : List Char) :
    1 ≤ (p.after cs).column := by
  induction cs generalizing p with
  | nil => exact h
  | cons c cs ih =>
      refine ih ?_
      unfold next
      split <;> simp

/-- Names that are found in a text are found in order, and none twice. -/
theorem SymbolTable.pairwise_scan_tokenize (source : Option String) (text : String) :
    (scan source [] (significant (tokenize text))).Pairwise SymbolEntry.Before := by
  refine pairwise_scan (((pairwise_tokenize_after text).imp_of_mem ?_).filter _)
  rintro a b ha hb ⟨cs, hcs⟩ kind kind'
  have hbefore := before_of_after ha hcs
  obtain ⟨ds, hds⟩ := Lexer.start_of_mem_place a ha
  have hcolumn : 1 ≤ a.start.column := by
    rw [hds]
    exact Position.one_le_column_after (Nat.le_refl 1) ds
  unfold Position.Before at hbefore
  simp only [SymbolEntry.Before, entry]
  omega

end Typeahead
