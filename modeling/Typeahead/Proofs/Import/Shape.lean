import Typeahead.Import
import Typeahead.Proofs.Tree.Leaves

/-!
The shapes of the trees that lead to imports. Every reduction keeps them, whatever was mended; so does every addition
that a trial makes to one of the parser's own trees, since the repeated parts of a preamble only grow by their own rule.
-/

namespace Typeahead

open Typeahead.Tree

/-! ## Shapes -/

/-- The rules from a file down to the names of its imports. -/
def outline : List Rule :=
  [.file, .preamble, .packageHeader, .importList, .importItems, .importHeader, .qualifiedName, .nameTail, .semi]

/-- Whether a tree is neither a file nor a preamble. -/
def Tree.inner (t : Tree) : Bool :=
  !t.isNode .file && !t.isNode .preamble

namespace Shape

variable {rule : Rule} {P : Tree → Prop} {t : Tree}

/-- A token of one of some terminals. -/
def Leaf (as : List Terminal) (t : Tree) : Prop :=
  ∃ token, t = .leaf token ∧ ∃ a ∈ as, token.kind = .terminal a

/-- A tree without import keywords. -/
def Plain (t : Tree) : Prop :=
  ∀ token ∈ t.leaves, token.kind ≠ .terminal .kwImport

/-- A node of a rule with nothing but such trees below it. -/
def Over (rule : Rule) (P : Tree → Prop) (t : Tree) : Prop :=
  ∃ (span : Option Span) (children : List Tree), t = .node rule span children ∧ ∀ c ∈ children, P c

/-- A dotted name. -/
def Name (rule : Rule) : Tree → Prop :=
  Over rule (Leaf [.dot, .name])

/-- An import: the keyword, the name and perhaps a semicolon. -/
def Header (t : Tree) : Prop :=
  ∃ (span : Option Span) (keyword : Token) (name : Tree) (rest : List Tree),
    t = .node .importHeader span (.leaf keyword :: name :: rest) ∧ keyword.kind = .terminal .kwImport ∧
    Name .qualifiedName name ∧ ∀ c ∈ rest, Leaf [.semicolon] c

/-- The imports, perhaps after a package header. -/
def Preamble (t : Tree) : Prop :=
  ∃ (span : Option Span) (front : List Tree) (list : Tree), t = .node .preamble span (front ++ [list]) ∧
    (∀ c ∈ front, Over .packageHeader Plain c) ∧ Over .importList Header list

/-- A preamble, and nothing else that is one. -/
def File (t : Tree) : Prop :=
  ∃ (span : Option Span) (preamble : Tree) (rest : List Tree), t = .node .file span (preamble :: rest) ∧
    Preamble preamble ∧ ∀ c ∈ rest, c.inner

/-- A tree that gives no preamble to others. -/
def Other (rule : Rule) (t : Tree) : Prop :=
  Fills (.r rule) t ∧ ∀ c ∈ t :: share (.r rule, t), c.inner

theorem leaf_singleton_iff {a : Terminal} : Leaf [a] t ↔ ∃ token, t = .leaf token ∧ token.kind = .terminal a := by
  simp [Leaf]

theorem Over.node (span : Option Span) {children : List Tree} (h : ∀ c ∈ children, P c) :
    Over rule P (.node rule span children) :=
  ⟨span, children, rfl, h⟩

theorem Over.children (h : Over rule P t) : ∀ c ∈ t.children, P c := by
  obtain ⟨_, _, rfl, hc⟩ := h
  exact hc

theorem Over.extend (h : Over rule P t) {extra : List Tree} (hx : ∀ c ∈ extra, P c) : Over rule P (t.extend extra) := by
  obtain ⟨span, children, rfl, hc⟩ := h
  exact .node span (List.forall_mem_append.mpr ⟨hc, hx⟩)

theorem Leaf.plain {as : List Terminal} (h : Leaf as t) (ha : .kwImport ∉ as) : Plain t := by
  obtain ⟨token, rfl, a, hmem, hk⟩ := h
  rw [Plain, leaves_leaf, List.forall_mem_singleton, hk]
  rintro ⟨⟩
  exact ha hmem

theorem Over.plain (h : Over rule P t) (hP : ∀ c, P c → Plain c) : Plain t := by
  obtain ⟨_, children, rfl, hc⟩ := h
  intro token ht
  rw [leaves_node, List.mem_flatMap] at ht
  obtain ⟨c, hmem, ht⟩ := ht
  exact hP c (hc c hmem) token ht

theorem Name.plain (h : Name rule t) : Plain t :=
  Over.plain h fun _ hc => hc.plain (by decide)

theorem Preamble.isNode (h : Preamble t) : t.isNode .preamble := by
  obtain ⟨_, _, _, rfl, _⟩ := h
  rfl

end Shape

open Shape

/-- What the tree for a symbol is like. -/
def Shaped : Symbol → Tree → Prop
  | .t a => Leaf [a]
  | .r .file => File
  | .r .preamble => Preamble
  | .r .packageHeader => Over .packageHeader Plain
  | .r .importList => Over .importList Header
  | .r .importItems => Over .importItems Header
  | .r .importHeader => Header
  | .r .qualifiedName => Name .qualifiedName
  | .r .nameTail => Name .nameTail
  | .r .semi => Over .semi (Leaf [.semicolon])
  | .r rule => Other rule

namespace Shaped

variable {s : Symbol} {t : Tree} {rule : Rule} {body : List Symbol} {parts : List Tree}

theorem of_other (h : rule ∉ outline) : Shaped (.r rule) t ↔ Other rule t := by
  cases rule <;> first | exact Iff.rfl | exact absurd (by decide) h

theorem exists_node (hr : rule ∈ outline) (h : Shaped (.r rule) t) :
    ∃ (span : Option Span) (children : List Tree), t = .node rule span children := by
  cases rule with
  | file | preamble =>
      obtain ⟨span, _, _, rfl, _⟩ := h
      exact ⟨span, _, rfl⟩
  | importHeader =>
      obtain ⟨span, _, _, _, rfl, _⟩ := h
      exact ⟨span, _, rfl⟩
  | packageHeader | importList | importItems | qualifiedName | nameTail | semi =>
      obtain ⟨span, children, rfl, _⟩ := h
      exact ⟨span, children, rfl⟩
  | _ => exact absurd hr (by decide)

theorem fills (h : Shaped s t) : Fills s t := by
  intro hs
  cases s with
  | t a => cases hs
  | r rule =>
      by_cases hr : rule ∈ outline
      · obtain ⟨_, _, rfl⟩ := exists_node hr h
        rfl
      · exact ((of_other hr).mp h).1 hs

/-! ## What trees give to others -/

theorem forall_mem_gather {P : Tree → Prop} (h : List.Forall₂ Shaped body parts)
    (hP : ∀ s ∈ body, ∀ t, Shaped s t → ∀ c ∈ share (s, t), P c) : ∀ c ∈ gather body parts, P c := by
  induction h with
  | nil => exact List.forall_mem_nil _
  | cons hs _ ih =>
      rw [List.forall_mem_cons] at hP
      rw [gather, List.zip_cons_cons, List.flatMap_cons]
      exact List.forall_mem_append.mpr ⟨hP.1 _ hs, ih hP.2⟩

theorem leaf_of_mem_share {as : List Terminal} (hs : s ∈ as.map .t) (h : Shaped s t) :
    ∀ c ∈ share (s, t), Leaf as c := by
  obtain ⟨a, ha, rfl⟩ := List.mem_map.mp hs
  obtain ⟨token, rfl, hk⟩ := leaf_singleton_iff.mp h
  exact List.forall_mem_singleton.mpr ⟨token, rfl, a, ha, hk⟩

theorem dotted_of_mem_share (hs : s ∈ [.t .dot, .t .name, .r .nameTail]) (h : Shaped s t) :
    ∀ c ∈ share (s, t), Leaf [.dot, .name] c := by
  simp only [List.mem_cons, List.not_mem_nil, or_false] at hs
  rcases hs with rfl | rfl | rfl
  · exact leaf_of_mem_share (by decide) h
  · exact leaf_of_mem_share (by decide) h
  · exact Over.children h

theorem header_of_mem_share (hs : s ∈ [.r .importHeader, .r .importItems]) (h : Shaped s t) :
    ∀ c ∈ share (s, t), Header c := by
  rcases List.mem_pair.mp hs with rfl | rfl
  · exact List.forall_mem_singleton.mpr h
  · exact Over.children h

theorem plain_of_mem_share (hs : s ∈ [.t .kwPackage, .r .qualifiedName, .r .semi]) (h : Shaped s t) :
    ∀ c ∈ share (s, t), Plain c := by
  simp only [List.mem_cons, List.not_mem_nil, or_false] at hs
  rcases hs with rfl | rfl | rfl
  · exact List.forall_mem_singleton.mpr (Leaf.plain h (by decide))
  · exact List.forall_mem_singleton.mpr (Name.plain h)
  · exact fun c hc => (Over.children h c hc).plain (by decide)

/-- No tree for any other symbol has a preamble or a file to give. -/
theorem inner (h : Shaped s t) (hp : s ≠ .r .preamble) (hf : s ≠ .r .file) : ∀ c ∈ t :: share (s, t), c.inner := by
  have hleaf {as : List Terminal} {t : Tree} (h : Leaf as t) : t.inner := by
    obtain ⟨token, rfl, _⟩ := h
    rfl
  cases s with
  | t a => exact List.forall_mem_cons.mpr ⟨hleaf h, List.forall_mem_singleton.mpr (hleaf h)⟩
  | r rule =>
      by_cases hr : rule ∈ outline
      · have ht : t.inner := by
          obtain ⟨_, _, rfl⟩ := exists_node hr h
          have hpreamble : rule ≠ .preamble := fun h => hp (congrArg _ h)
          have hfile : rule ≠ .file := fun h => hf (congrArg _ h)
          simp [Tree.inner, isNode, hpreamble, hfile]
        refine List.forall_mem_cons.mpr ⟨ht, ?_⟩
        cases rule with
        | importItems =>
            intro c hc
            obtain ⟨_, _, _, _, rfl, _⟩ := Over.children h c hc
            rfl
        | nameTail | semi => exact fun c hc => hleaf (Over.children h c hc)
        | file | preamble | packageHeader | importList | importHeader | qualifiedName =>
            exact List.forall_mem_singleton.mpr ht
        | _ => exact absurd hr (by decide)
      · exact ((of_other hr).mp h).2

/-- Symbols below which there is no import keyword. -/
def plain : List Symbol :=
  [.t .dot, .t .name, .t .semicolon, .r .nameTail, .r .qualifiedName, .r .semi]

theorem plain_of_mem (hs : s ∈ plain) (h : Shaped s t) : Plain t := by
  simp only [plain, List.mem_cons, List.not_mem_nil, or_false] at hs
  rcases hs with rfl | rfl | rfl | rfl | rfl | rfl
  · exact Leaf.plain h (by decide)
  · exact Leaf.plain h (by decide)
  · exact Leaf.plain h (by decide)
  · exact Name.plain h
  · exact Name.plain h
  · exact Over.plain h fun _ hc => hc.plain (by decide)

/-! ## Reductions -/

theorem build_over {P : Tree → Prop} {symbols : List Symbol} (hc : rule.collapses = false)
    (hbodies : ∀ body ∈ rule.alternatives, ∀ s ∈ body, s ∈ symbols)
    (hP : ∀ s ∈ symbols, ∀ t, Shaped s t → ∀ c ∈ share (s, t), P c)
    (hb : body ∈ rule.alternatives) (h : List.Forall₂ Shaped body parts) : Over rule P (build ⟨rule, body⟩ parts) := by
  refine ⟨cover parts, gather body parts, by simp [build, hc], forall_mem_gather h fun s hs => ?_⟩
  exact hP s (hbodies body hb s hs)

/-- Only a file has a preamble in its body, and nothing has a file. -/
theorem notMem_of_alternative (h : rule ∉ outline) :
    ∀ body ∈ rule.alternatives, .r .preamble ∉ body ∧ .r .file ∉ body := by
  cases rule <;> first | decide | exact absurd (by decide) h

theorem build_other (hr : rule ∉ outline) (hb : body ∈ rule.alternatives) (h : List.Forall₂ Shaped body parts) :
    Other rule (build ⟨rule, body⟩ parts) := by
  obtain ⟨hp, hf⟩ := notMem_of_alternative hr body hb
  have hgather : ∀ c ∈ gather body parts, c.inner := forall_mem_gather h fun s hs t ht c hc =>
    ht.inner (fun h => hp (h ▸ hs)) (fun h => hf (h ▸ hs)) c (List.mem_cons_of_mem _ hc)
  have hbuild : (build ⟨rule, body⟩ parts).inner := by
    rcases collapsed_or_node ⟨rule, body⟩ parts with ⟨_, hg⟩ | hb
    · exact hgather _ (hg ▸ List.mem_singleton_self _)
    · have hfile : rule ≠ .file := fun h => hr (by rw [h]; decide)
      have hpreamble : rule ≠ .preamble := fun h => hr (by rw [h]; decide)
      simp [hb, Tree.inner, isNode, hfile, hpreamble]
  refine ⟨fills_build ⟨rule, body⟩ parts, List.forall_mem_cons.mpr ⟨hbuild, fun c hc => ?_⟩⟩
  by_cases hs : rule.spliced
  · simp only [share, Symbol.spliced, hs, ↓reduceIte] at hc
    refine hgather c ?_
    simpa [build, not_collapses_of_spliced hs, children] using hc
  · simp only [share, Symbol.spliced, hs] at hc
    rwa [List.mem_singleton.mp hc]

theorem build_file (hb : body ∈ Rule.alternatives .file) (h : List.Forall₂ Shaped body parts) :
    File (build ⟨.file, body⟩ parts) := by
  simp only [Rule.alternatives, List.mem_cons, List.not_mem_nil, or_false] at hb
  rcases hb with rfl | rfl
  · cases h with
    | @cons _ preamble _ _ hp h =>
        refine ⟨_, preamble, _, rfl, hp, forall_mem_gather h fun s hs t ht c hc => ?_⟩
        obtain rfl := List.mem_singleton.mp hs
        exact ht.inner nofun nofun c (List.mem_cons_of_mem _ hc)
  · cases h with
    | @cons _ preamble _ _ hp h =>
        cases h
        exact ⟨_, preamble, [], rfl, hp, List.forall_mem_nil _⟩

theorem build_preamble (hb : body ∈ Rule.alternatives .preamble) (h : List.Forall₂ Shaped body parts) :
    Preamble (build ⟨.preamble, body⟩ parts) := by
  simp only [Rule.alternatives, List.mem_cons, List.not_mem_nil, or_false] at hb
  rcases hb with rfl | rfl
  · cases h with
    | @cons _ package _ _ hp h =>
        cases h with
        | @cons _ list _ _ hl h =>
            cases h
            exact ⟨_, [package], list, rfl, List.forall_mem_singleton.mpr hp, hl⟩
  · cases h with
    | @cons _ list _ _ hl h =>
        cases h
        exact ⟨_, [], list, rfl, List.forall_mem_nil _, hl⟩

theorem build_header (hb : body ∈ Rule.alternatives .importHeader) (h : List.Forall₂ Shaped body parts) :
    Header (build ⟨.importHeader, body⟩ parts) := by
  -- With or without a semicolon, the name comes after the keyword.
  have hsplit : ∃ rest, body = .t .kwImport :: .r .qualifiedName :: rest ∧ ∀ s ∈ rest, s = .r .semi := by
    simp only [Rule.alternatives, List.mem_cons, List.not_mem_nil, or_false] at hb
    rcases hb with rfl | rfl
    · exact ⟨[.r .semi], rfl, by simp⟩
    · exact ⟨[], rfl, by simp⟩
  obtain ⟨rest, rfl, hrest⟩ := hsplit
  cases h with
  | cons hk h =>
      cases h with
      | @cons _ name _ _ hn h =>
          obtain ⟨keyword, rfl, hkind⟩ := leaf_singleton_iff.mp hk
          refine ⟨_, keyword, name, _, rfl, hkind, hn, forall_mem_gather h fun s hs t ht => ?_⟩
          obtain rfl := hrest s hs
          exact Over.children ht

/-- Reductions build trees of the right shape from trees of the right shape. -/
theorem build (hb : body ∈ rule.alternatives) (h : List.Forall₂ Shaped body parts) :
    Shaped (.r rule) (Tree.build ⟨rule, body⟩ parts) := by
  by_cases hr : rule ∈ outline
  · cases rule with
    | file => exact build_file hb h
    | preamble => exact build_preamble hb h
    | packageHeader => exact build_over rfl (by decide) (fun s hs t => plain_of_mem_share hs) hb h
    | importList | importItems => exact build_over rfl (by decide) (fun s hs t => header_of_mem_share hs) hb h
    | importHeader => exact build_header hb h
    | qualifiedName | nameTail => exact build_over rfl (by decide) (fun s hs t => dotted_of_mem_share hs) hb h
    | semi => exact build_over rfl (by decide) (fun s hs t => leaf_of_mem_share hs) hb h
    | _ => exact absurd hr (by decide)
  · exact (of_other hr).mpr (build_other hr hb h)

/-! ## Additions -/

/-- The repeated parts of a preamble, and what may end an import. -/
def steady : List Symbol :=
  [.r .importItems, .r .nameTail, .r .semi]

theorem head_of_alternative : ∀ body ∈ rule.alternatives,
    body.head? ≠ some (.r .semi) ∧
    (body.head? = some (.r .nameTail) → ∀ s ∈ body.tail, s ∈ [.t .dot, .t .name, .r .nameTail]) ∧
    (body.head? = some (.r .importItems) → ∀ s ∈ body.tail, s ∈ [.r .importHeader, .r .importItems]) ∧
    .r .preamble ∉ body.tail ∧ .r .file ∉ body.tail := by
  cases rule <;> decide

theorem steady_of_spliced : ∀ rule ∈ outline, rule.spliced → .r rule ∈ steady := by
  decide

/-- A tree keeps its shape when the rest of a body that starts with its symbol is added to it. -/
theorem extend (h : Shaped s t) (hs : s.spliced) (hb : body ∈ rule.alternatives)
    (hhead : s ∈ steady → body.head? = some s) (hparts : List.Forall₂ Shaped body.tail parts) :
    Shaped s (t.extend (gather body.tail parts)) := by
  obtain ⟨hsemi, htail, hitems, hpreamble, hfile⟩ := head_of_alternative body hb
  by_cases hst : s ∈ steady
  · have hhead := hhead hst
    simp only [steady, List.mem_cons, List.not_mem_nil, or_false] at hst
    rcases hst with rfl | rfl | rfl
    · exact Over.extend h (forall_mem_gather hparts fun s hs t => header_of_mem_share (hitems hhead s hs))
    · exact Over.extend h (forall_mem_gather hparts fun s hs t => dotted_of_mem_share (htail hhead s hs))
    · exact absurd hhead hsemi
  · cases s with
    | t a => cases hs
    | r r =>
        have hr : r ∉ outline := fun hmem => hst (steady_of_spliced r hmem hs)
        obtain ⟨hfills, hinner⟩ := (of_other hr).mp h
        obtain ⟨ht, hshare⟩ := List.forall_mem_cons.mp hinner
        have hadded : ∀ c ∈ gather body.tail parts, c.inner := forall_mem_gather hparts fun s hs t ht c hc =>
          ht.inner (fun h => hpreamble (h ▸ hs)) (fun h => hfile (h ▸ hs)) c (List.mem_cons_of_mem _ hc)
        cases t with
        | leaf token => cases hfills hs
        | node label span children =>
            refine (of_other hr).mpr ⟨hfills.extend _, List.forall_mem_cons.mpr ⟨ht, ?_⟩⟩
            simp only [share, hs, ↓reduceIte] at hshare ⊢
            exact List.forall_mem_append.mpr ⟨hshare, hadded⟩

end Shaped

end Typeahead
