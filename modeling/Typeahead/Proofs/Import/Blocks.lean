import Mathlib.Data.List.Basic
import Mathlib.Data.List.Induction
import Mathlib.Data.Option.Defs
import Typeahead.Parser

/-!
Blocks of tokens: an import keyword and the names that come before the next one. A parser adds tokens at the end, and
what it gives up in a trial may leave a copy of the end before it. Either way the blocks stay orderly: the names of a
block come one after another and after its keyword, and no other keyword of the text stands between them.
-/

namespace Typeahead

/-- An import keyword and the names that come before the next one. -/
structure Block where
  keyword : Token
  names : List Token

namespace Block

/-- Whether a block has a name, and no part of it is missing. -/
def clean (b : Block) : Bool :=
  !b.names.isEmpty && b.names.all (!·.isMissing)

/-- A block with more names. -/
def extend (names : List Token) (b : Block) : Block :=
  ⟨b.keyword, b.names ++ names⟩

@[simp] theorem keyword_extend (names : List Token) (b : Block) : (b.extend names).keyword = b.keyword := rfl

@[simp] theorem names_extend (names : List Token) (b : Block) : (b.extend names).names = b.names ++ names := rfl

theorem clean_iff {b : Block} : b.clean ↔ b.names ≠ [] ∧ ∀ n ∈ b.names, n.isMissing = false := by
  simp [clean]

/-- What a block has been given does not make it clean. -/
theorem clean_of_extend {b : Block} {names : List Token} (h : (b.extend names).clean) (hb : b.names ≠ []) : b.clean :=
  clean_iff.mpr ⟨hb, fun n hn => (clean_iff.mp h).2 n (List.mem_append_left _ hn)⟩

@[simp] theorem extend_nil (b : Block) : b.extend [] = b := by
  simp [extend]

/-- A clean block has no missing names. -/
theorem eq_nil_of_clean {b : Block} {names : List Token} (h : b.clean) (hs : names ⊆ b.names)
    (hm : ∀ n ∈ names, n.isMissing) : names = [] := by
  refine List.eq_nil_iff_forall_not_mem.mpr fun n hn => ?_
  have hwritten := (clean_iff.mp h).2 n (hs hn)
  rw [hm n hn] at hwritten
  cases hwritten

end Block

/-- The blocks after one more token, the latest first. -/
def note (bs : List Block) (token : Token) : List Block :=
  if token.kind = .terminal .kwImport then
    ⟨token, []⟩ :: bs
  else if token.isName then
    bs.modifyHead (.extend [token])
  else
    bs

/-- The blocks of some tokens, the latest first. -/
def blocks (tokens : List Token) : List Block :=
  tokens.foldl note []

theorem blocks_append (xs ys : List Token) : blocks (xs ++ ys) = ys.foldl note (blocks xs) :=
  List.foldl_append

theorem blocks_concat (xs : List Token) (token : Token) : blocks (xs ++ [token]) = note (blocks xs) token :=
  blocks_append xs [token]

section Plain

variable {xs ys zs : List Token} {k : Token}

/-- Without keywords, all names go to the latest block. -/
theorem foldl_note (h : ∀ y ∈ ys, y.kind ≠ .terminal .kwImport) (bs : List Block) :
    ys.foldl note bs = bs.modifyHead (.extend (ys.filter Token.isName)) := by
  induction ys generalizing bs with
  | nil => cases bs <;> simp [Block.extend]
  | cons y ys ih =>
      rw [List.forall_mem_cons] at h
      rw [List.foldl_cons, ih h.2, note, if_neg h.1]
      by_cases hy : y.isName
      · cases bs <;> simp [hy, Block.extend]
      · simp [hy]

theorem blocks_append_plain (h : ∀ y ∈ ys, y.kind ≠ .terminal .kwImport) :
    blocks (xs ++ ys) = (blocks xs).modifyHead (.extend (ys.filter Token.isName)) := by
  rw [blocks_append, foldl_note h]

/-- From a keyword on, a block of its own begins. -/
theorem blocks_append_cons (hk : k.kind = .terminal .kwImport) (h : ∀ z ∈ zs, z.kind ≠ .terminal .kwImport) :
    blocks (xs ++ k :: zs) = ⟨k, zs.filter Token.isName⟩ :: blocks xs := by
  rw [blocks_append, List.foldl_cons, foldl_note h, note, if_pos hk]
  rfl

theorem kinds_of_mem_blocks {ts : List Token} : ∀ b ∈ blocks ts,
    b.keyword.kind = .terminal .kwImport ∧ ∀ n ∈ b.names, n.isName := by
  induction ts using List.reverseRecOn with
  | nil => exact List.forall_mem_nil _
  | append_singleton ts t ih =>
      rw [blocks_concat, note]
      split
      · rename_i hk
        exact List.forall_mem_cons.mpr ⟨⟨hk, List.forall_mem_nil _⟩, ih⟩
      · split
        · rename_i ht
          cases hbs : blocks ts with
          | nil => exact List.forall_mem_nil _
          | cons b bs =>
              rw [hbs, List.forall_mem_cons] at ih
              refine List.forall_mem_cons.mpr ⟨⟨ih.1.1, ?_⟩, ih.2⟩
              exact List.forall_mem_append.mpr ⟨ih.1.2, List.forall_mem_singleton.mpr ht⟩
        · exact ih

end Plain

/-! ## Orderly blocks -/

variable {read : List Token} {issues : List Issue} {bs : List Block} {place : Position} {u : Token}

/-- The tokens read so far start before a place. -/
def Behind (read : List Token) (place : Position) : Prop :=
  ∀ v ∈ read, v.start.offset < place.offset

namespace Block

variable {f g : Block} {names : List Token}

/-- What is right about a clean block: its names are tokens of the text, one after another and after its keyword; the
keyword is one too, or was missing before the first of them; and no other keyword stands between them. -/
structure Good (read : List Token) (issues : List Issue) (b : Block) : Prop where
  mem : ∀ n ∈ b.names, n ∈ read
  after : ∀ n ∈ b.names, b.keyword.start.offset ≤ n.start.offset
  ordered : b.names.Pairwise (·.start.offset ≤ ·.start.offset)
  origin : b.keyword ∈ read ∨ b.keyword.isMissing ∧ ∀ n ∈ b.names.head?, .missingBefore .kwImport n ∈ issues
  alone : ∀ v ∈ read, v.kind = .terminal .kwImport → b.keyword.start.offset < v.start.offset →
    ∀ n ∈ b.names, n.start.offset < v.start.offset

namespace Good

theorem later (h : g.Good read issues) (he : Behind read place) (hu : place.offset ≤ u.start.offset) :
    g.Good (read ++ [u]) issues where
  mem n hn := List.mem_append_left _ (h.mem n hn)
  after := h.after
  ordered := h.ordered
  origin := h.origin.imp_left (List.mem_append_left _)
  alone v hv hk hlt n hn := by
    rcases List.mem_append.mp hv with hv | hv
    · exact h.alone v hv hk hlt n hn
    · rw [List.mem_singleton.mp hv]
      exact Nat.lt_of_lt_of_le (he n (h.mem n hn)) hu

theorem single {k : Token} (hu : u ∈ read) (hle : k.start.offset ≤ u.start.offset)
    (horigin : k ∈ read ∨ k.isMissing ∧ .missingBefore .kwImport u ∈ issues)
    (halone : ∀ v ∈ read, v.kind = .terminal .kwImport → k.start.offset < v.start.offset →
      u.start.offset < v.start.offset) : Good read issues ⟨k, [u]⟩ where
  mem := List.forall_mem_singleton.mpr hu
  after := List.forall_mem_singleton.mpr hle
  ordered := List.pairwise_singleton _ _
  origin := horigin.imp_right (And.imp_right (by simp))
  alone v hv hk hlt := List.forall_mem_singleton.mpr (halone v hv hk hlt)

/-- A block may be given a name from the text that is not before its others. -/
theorem concat (h : g.Good read issues) (hne : g.names ≠ []) (hu : u ∈ read)
    (hle : ∀ n ∈ g.names, n.start.offset ≤ u.start.offset)
    (halone : ∀ v ∈ read, v.kind = .terminal .kwImport → g.keyword.start.offset < v.start.offset →
      u.start.offset < v.start.offset) : (g.extend [u]).Good read issues where
  mem := List.forall_mem_append.mpr ⟨h.mem, List.forall_mem_singleton.mpr hu⟩
  after := by
    obtain ⟨n, hn⟩ := List.exists_mem_of_ne_nil _ hne
    refine List.forall_mem_append.mpr ⟨h.after, List.forall_mem_singleton.mpr ?_⟩
    exact Nat.le_trans (h.after n hn) (hle n hn)
  ordered := List.pairwise_append.mpr ⟨h.ordered, List.pairwise_singleton _ _, by simpa using hle⟩
  origin := by
    rw [names_extend, List.head?_append_of_ne_nil _ hne]
    exact h.origin
  alone v hv hk hlt := List.forall_mem_append.mpr
    ⟨h.alone v hv hk hlt, List.forall_mem_singleton.mpr (halone v hv hk hlt)⟩

end Good

theorem ne_nil_of_head? {xs ys : List Token} (h : xs.head? = ys.head?) (hx : xs ≠ []) : ys ≠ [] := by
  rintro rfl
  exact hx (List.head?_eq_none_iff.mp h)

/-- Whether a block is an earlier one, or a copy of the other that was left unfinished. -/
def Precedes (f g : Block) : Prop :=
  (f.keyword = g.keyword ∧ f.names.head? = g.names.head?) ∨ ∀ n ∈ f.names, n.start.offset < g.keyword.start.offset

/-- Whether the second block is the first with more names at its end. -/
def Grown (f g : Block) : Prop :=
  g.keyword = f.keyword ∧ (f.names ≠ [] → g.names.head? = f.names.head?)

theorem grown_extend (b : Block) (names : List Token) : Grown b (b.extend names) :=
  ⟨rfl, fun h => by rw [names_extend, List.head?_append_of_ne_nil _ h]⟩

theorem Grown.trans {h : Block} (hg : Grown f g) (hh : Grown g h) : Grown f h := by
  refine ⟨hh.1.trans hg.1, fun hne => ?_⟩
  have hhead := hg.2 hne
  exact (hh.2 (ne_nil_of_head? hhead.symm hne)).trans hhead

theorem Precedes.grown {g' : Block} (h : f.Precedes g) (hf : f.clean) (hg : Grown g g') : f.Precedes g' := by
  rcases h with ⟨hk, hn⟩ | h
  · have hne := ne_nil_of_head? hn (clean_iff.mp hf).1
    exact .inl ⟨hk.trans hg.1.symm, hn.trans (hg.2 hne).symm⟩
  · exact .inr (hg.1 ▸ h)

theorem Grown.precedes (h : Grown f g) (hne : f.names ≠ []) : f.Precedes g :=
  .inl ⟨h.1.symm, (h.2 hne).symm⟩

end Block

open Block

/-- What is right about all blocks, the latest first. -/
structure Orderly (read : List Token) (issues : List Issue) (bs : List Block) : Prop where
  good : ∀ b ∈ bs, b.clean → b.Good read issues
  known : ∀ b ∈ bs, b.keyword ∈ read ∨ b.keyword.isMissing
  sorted : bs.Pairwise fun g f => f.clean → f.Precedes g

/-- Every import keyword of the text is that of the latest block, or stands before it. -/
def Latest (read : List Token) (bs : List Block) : Prop :=
  ∀ v ∈ read, v.kind = .terminal .kwImport →
    ∃ k ∈ bs.head?.map Block.keyword, v.start.offset ≤ k.start.offset

/-- Whether a name may come next: if the latest keyword is missing and has no name yet, it was missing before this
one. -/
def Awaits (issues : List Issue) (bs : List Block) (u : Token) : Prop :=
  ∀ g ∈ bs.head?, g.keyword.isMissing → g.names = [] →
    .missingBefore .kwImport u ∈ issues ∧ g.keyword.start.offset ≤ u.start.offset

/-- Whether the latest block has a name if its keyword is missing. -/
def Begun (bs : List Block) : Prop :=
  ∀ g ∈ bs.head?, g.keyword.isMissing → g.names ≠ []

theorem Begun.awaits (h : Begun bs) (u : Token) : Awaits issues bs u :=
  fun g hg hm hnil => absurd hnil (h g hg hm)

theorem head?_modifyHead (bs : List Block) (names : List Token) :
    (bs.modifyHead (.extend names)).head? = bs.head?.map (.extend names) := by
  cases bs <;> rfl

theorem keyword_modifyHead (bs : List Block) (names : List Token) :
    (bs.modifyHead (.extend names)).head?.map Block.keyword = bs.head?.map Block.keyword := by
  cases bs <;> rfl

/-! ## One more token -/

namespace Orderly

theorem nil : Orderly read issues [] :=
  ⟨List.forall_mem_nil _, List.forall_mem_nil _, .nil⟩

theorem later (h : Orderly read issues bs) (he : Behind read place) (hu : place.offset ≤ u.start.offset) :
    Orderly (read ++ [u]) issues bs :=
  ⟨fun b hb hc => (h.good b hb hc).later he hu, fun b hb => (h.known b hb).imp_left (List.mem_append_left _), h.sorted⟩

theorem cons {k : Token} (h : Orderly read issues bs) (hk : k ∈ read ∨ k.isMissing)
    (hlt : ∀ f ∈ bs, f.clean → ∀ n ∈ f.names, n.start.offset < k.start.offset) :
    Orderly read issues (⟨k, []⟩ :: bs) := by
  refine ⟨List.forall_mem_cons.mpr ⟨nofun, h.good⟩, List.forall_mem_cons.mpr ⟨hk, h.known⟩, ?_⟩
  exact List.pairwise_cons.mpr ⟨fun f hf hc => .inr (hlt f hf hc), h.sorted⟩

theorem extend (h : Orderly read issues bs) {names : List Token}
    (hgood : ∀ b ∈ bs.head?, (b.extend names).clean → (b.extend names).Good read issues) :
    Orderly read issues (bs.modifyHead (.extend names)) := by
  cases bs with
  | nil => exact nil
  | cons g bs =>
      obtain ⟨hhead, htail⟩ := List.pairwise_cons.mp h.sorted
      refine ⟨List.forall_mem_cons.mpr ⟨hgood g rfl, fun b hb => h.good b (List.mem_cons_of_mem _ hb)⟩,
        List.forall_mem_cons.mpr ⟨h.known g List.mem_cons_self, fun b hb => h.known b (List.mem_cons_of_mem _ hb)⟩,
        List.pairwise_cons.mpr ⟨fun f hf hc => ?_, htail⟩⟩
      exact (hhead f hf hc).grown hc (g.grown_extend names)

/-- Missing names make the latest block unclean, if anything. -/
theorem extend_missing (h : Orderly read issues bs) {names : List Token} (hm : ∀ n ∈ names, n.isMissing) :
    Orderly read issues (bs.modifyHead (.extend names)) := by
  refine h.extend fun b hb hc => ?_
  obtain rfl := eq_nil_of_clean hc (List.subset_append_right _ _) hm
  rw [extend_nil] at hc ⊢
  exact h.good b (List.mem_of_mem_head? hb) hc

theorem start_lt (h : Orderly read issues bs) (he : Behind read place) :
    ∀ f ∈ bs, f.clean → ∀ n ∈ f.names, n.start.offset < place.offset := by
  intro f hf hc n hn
  exact he n ((h.good f hf hc).mem n hn)

theorem note_missing (h : Orderly read issues bs) (he : Behind read place) (m : Terminal) :
    Orderly read issues (note bs (Token.missing m place)) := by
  unfold note
  split
  · exact h.cons (.inr rfl) (h.start_lt he)
  · split
    · exact h.extend_missing (List.forall_mem_singleton.mpr rfl)
    · exact h

/-- A name goes to the latest block. -/
theorem extend_name (h : Orderly read issues bs) (hl : Latest read bs) (ha : Awaits issues bs u)
    (he : Behind read place) (hu : place.offset ≤ u.start.offset) (hn : u.kind ≠ .terminal .kwImport) :
    Orderly (read ++ [u]) issues (bs.modifyHead (.extend [u])) := by
  refine (h.later he hu).extend fun b hb hc => ?_
  have hmem := List.mem_of_mem_head? hb
  have hread : u ∈ read ++ [u] := List.mem_append_right _ (List.mem_singleton_self u)
  -- No keyword comes between the latest block's and this token.
  have halone : ∀ v ∈ read ++ [u], v.kind = .terminal .kwImport → b.keyword.start.offset < v.start.offset →
      u.start.offset < v.start.offset := by
    intro v hv hk hlt
    rcases List.mem_append.mp hv with hv | hv
    · obtain ⟨k, hk, hle⟩ := hl v hv hk
      rw [Option.mem_def.mp hb, Option.map_some, Option.mem_some] at hk
      rw [← hk] at hle
      omega
    · rw [List.mem_singleton.mp hv] at hk
      exact absurd hk hn
  by_cases hnil : b.names = []
  · obtain ⟨k, names⟩ := b
    subst hnil
    rcases h.known _ hmem with hk | hk
    · exact .single hread (Nat.le_of_lt (Nat.lt_of_lt_of_le (he k hk) hu)) (.inl (List.mem_append_left _ hk)) halone
    · obtain ⟨hi, hle⟩ := ha _ hb hk rfl
      exact .single hread hle (.inr ⟨hk, hi⟩) halone
  · have hclean := clean_of_extend hc hnil
    refine ((h.good b hmem hclean).later he hu).concat hnil hread (fun n hn => ?_) halone
    exact Nat.le_trans (Nat.le_of_lt (h.start_lt he b hmem hclean n hn)) hu

theorem note_written (h : Orderly read issues bs) (hl : Latest read bs) (ha : Awaits issues bs u)
    (he : Behind read place) (hu : place.offset ≤ u.start.offset) : Orderly (read ++ [u]) issues (note bs u) := by
  unfold note
  split
  · refine (h.later he hu).cons (.inl (by simp)) fun f hf hc n hn => ?_
    exact Nat.lt_of_lt_of_le (h.start_lt he f hf hc n hn) hu
  · rename_i hk
    split
    · exact h.extend_name hl ha he hu hk
    · exact h.later he hu

end Orderly

namespace Latest

theorem later (h : Latest read bs) (hu : u.kind ≠ .terminal .kwImport) : Latest (read ++ [u]) bs := by
  intro v hv hk
  rcases List.mem_append.mp hv with hv | hv
  · exact h v hv hk
  · rw [List.mem_singleton.mp hv] at hk
    exact absurd hk hu

theorem cons {k : Token} (h : ∀ v ∈ read, v.start.offset ≤ k.start.offset) : Latest read (⟨k, []⟩ :: bs) :=
  fun v hv _ => ⟨k, rfl, h v hv⟩

theorem extend (h : Latest read bs) (names : List Token) : Latest read (bs.modifyHead (.extend names)) := by
  intro v hv hk
  rw [keyword_modifyHead]
  exact h v hv hk

theorem note_missing (h : Latest read bs) (he : Behind read place) (m : Terminal) :
    Latest read (note bs (Token.missing m place)) := by
  unfold note
  split
  · exact cons fun v hv => Nat.le_of_lt (he v hv)
  · split
    · exact h.extend _
    · exact h

theorem note_written (h : Latest read bs) (he : Behind read place) (hu : place.offset ≤ u.start.offset) :
    Latest (read ++ [u]) (note bs u) := by
  unfold note
  split
  · refine cons (List.forall_mem_append.mpr ⟨fun v hv => ?_, by simp⟩)
    exact Nat.le_of_lt (Nat.lt_of_lt_of_le (he v hv) hu)
  · rename_i hk
    split
    · exact (h.later hk).extend _
    · exact h.later hk

end Latest

namespace Begun

theorem extend {names : List Token} (hne : names ≠ []) : Begun (bs.modifyHead (.extend names)) := by
  intro g hg _
  rw [head?_modifyHead, Option.mem_def, Option.map_eq_some_iff] at hg
  obtain ⟨b, _, rfl⟩ := hg
  exact List.append_ne_nil_of_right_ne_nil _ hne

theorem note_missing (h : Begun bs) {m : Terminal} (hm : m ≠ .kwImport) (place : Position) :
    Begun (note bs (Token.missing m place)) := by
  unfold note
  split
  · rename_i hk
    cases hk
    exact absurd rfl hm
  · split
    · exact extend (List.cons_ne_nil _ _)
    · exact h

/-- A name may come after a missing keyword if that is the issue about it. -/
theorem awaits_missing (hi : .missingBefore .kwImport u ∈ issues) (hu : place.offset ≤ u.start.offset) :
    Awaits issues (note bs (Token.missing .kwImport place)) u := by
  rintro g ⟨⟩ _ _
  exact ⟨hi, hu⟩

theorem note_written (h : Begun bs ∨ u.isName) (hu : u.isMissing = false) : Begun (note bs u) := by
  unfold note
  split
  · rintro g ⟨⟩ hm
    rw [hu] at hm
    cases hm
  · split
    · exact extend (List.cons_ne_nil _ _)
    · rename_i hn
      exact h.resolve_right hn

end Begun

/-! ## Copies -/

/-- The end of some tokens that may be copied: an import from its keyword on, or the end of a name. -/
inductive Copyable (tokens : List Token) : List Token → Prop
  | header {k : Token} {zs : List Token} : k.kind = .terminal .kwImport → (∀ z ∈ zs, z.kind ≠ .terminal .kwImport) →
      Copyable tokens (k :: zs)
  | name {xs front : List Token} : (∀ x ∈ xs, x.kind ≠ .terminal .kwImport) → (xs.filter Token.isName).length ≤ 1 →
      tokens = front ++ xs → Copyable tokens xs

/-- Whether the latest block, if any, is the same one, perhaps with more names at its end. -/
def Resumes (bs bs' : List Block) : Prop :=
  Option.Rel Block.Grown bs.head? bs'.head?

namespace Resumes

variable {bs' : List Block}

theorem refl (bs : List Block) : Resumes bs bs := by
  cases bs with
  | nil => exact .none
  | cons b bs => exact .some ⟨rfl, fun _ => rfl⟩

theorem extend (bs : List Block) (names : List Token) : Resumes bs (bs.modifyHead (.extend names)) := by
  cases bs with
  | nil => exact .none
  | cons b bs => exact .some (b.grown_extend names)

theorem exists_grown {g : Block} (h : Resumes bs (g :: bs')) : ∃ f rest, bs = f :: rest ∧ Block.Grown f g := by
  cases bs with
  | nil => cases h
  | cons f rest =>
      cases h with
      | some hg => exact ⟨f, rest, rfl, hg⟩

theorem trans {bs'' : List Block} (h : Resumes bs bs') (h' : Resumes bs' bs'') : Resumes bs bs'' := by
  unfold Resumes at h h' ⊢
  generalize bs.head? = first, bs'.head? = second, bs''.head? = third at h h'
  cases h with
  | none => exact h'
  | some hg =>
      cases h' with
      | some hg' => exact .some (hg.trans hg')

theorem latest (h : Resumes bs bs') (hl : Latest read bs) : Latest read bs' := by
  cases bs with
  | nil =>
      intro v hv hk
      obtain ⟨_, ⟨⟩, _⟩ := hl v hv hk
  | cons f rest =>
      cases bs' with
      | nil => cases h
      | cons g rest' =>
          intro v hv hk
          obtain ⟨_, ⟨⟩, hle⟩ := hl v hv hk
          cases h with
          | some hg => exact ⟨_, rfl, hg.1 ▸ hle⟩

theorem begun (h : Resumes bs bs') (hb : Begun bs) : Begun bs' := by
  cases bs' with
  | nil => exact nofun
  | cons g rest' =>
      rintro _ ⟨⟩ hm hnil
      obtain ⟨f, rest, rfl, hg⟩ := h.exists_grown
      have hne := hb f rfl (hg.1 ▸ hm)
      exact ne_nil_of_head? (hg.2 hne).symm hne hnil

end Resumes

namespace Orderly

variable {tokens front ending made : List Token}

/-- The latest block may be given the last of its names once more. -/
theorem good_again {xs : List Token} (h : Orderly read issues (blocks (front ++ xs)))
    (hx : ∀ x ∈ xs, x.kind ≠ .terminal .kwImport) (hlen : (xs.filter Token.isName).length ≤ 1) :
    ∀ b ∈ (blocks (front ++ xs)).head?, (b.extend (xs.filter Token.isName)).clean →
      (b.extend (xs.filter Token.isName)).Good read issues := by
  intro b hb hc
  have hgood := h.good b (List.mem_of_mem_head? hb)
  rw [blocks_append_plain hx, head?_modifyHead, Option.mem_def, Option.map_eq_some_iff] at hb
  obtain ⟨a, _, rfl⟩ := hb
  cases hnames : xs.filter Token.isName with
  | nil =>
      rw [hnames] at hgood hc
      rw [extend_nil] at hc ⊢
      exact hgood hc
  | cons x rest =>
      obtain rfl : rest = [] := by simpa [hnames] using hlen
      rw [hnames] at hgood hc
      have hlast : x ∈ (a.extend [x]).names := List.mem_append_right _ (List.mem_singleton_self x)
      have hne := List.ne_nil_of_mem hlast
      have hgood := hgood (clean_of_extend hc hne)
      refine hgood.concat hne (hgood.mem x hlast) ?_ fun v hv hk hlt => hgood.alone v hv hk hlt x hlast
      have hordered := (List.pairwise_append.mp hgood.ordered).2.2
      exact List.forall_mem_append.mpr ⟨fun n hn => hordered n hn x (List.mem_singleton_self x), by simp⟩

/-- The latest block may be put in once more as it has become, after missing names. -/
theorem push {g : Block} {bs' : List Block} {names : List Token} (h : Orderly read issues bs)
    (h' : Orderly read issues (g :: bs')) (hr : Resumes bs (g :: bs')) (hm : ∀ n ∈ names, n.isMissing) :
    Orderly read issues (g :: bs.modifyHead (.extend names)) := by
  obtain ⟨f, rest, rfl, hg⟩ := hr.exists_grown
  have hcopy := h.extend_missing hm
  refine ⟨List.forall_mem_cons.mpr ⟨h'.good g List.mem_cons_self, hcopy.good⟩,
    List.forall_mem_cons.mpr ⟨h'.known g List.mem_cons_self, hcopy.known⟩,
    List.pairwise_cons.mpr ⟨List.forall_mem_cons.mpr ⟨fun hc => ?_, fun b hb hc => ?_⟩, hcopy.sorted⟩⟩
  · -- The copy has the same keyword, and the same first name if it is clean.
    have hnil := eq_nil_of_clean hc (List.subset_append_right _ _) hm
    rw [hnil, extend_nil] at hc ⊢
    exact hg.precedes (clean_iff.mp hc).1
  · exact ((List.pairwise_cons.mp h.sorted).1 b hb hc).grown hc hg

/-- What is put in before the end of some tokens, when the end is copied and some missing tokens come after the copy. -/
theorem copy (h : Orderly read issues (blocks tokens)) (h' : Orderly read issues (blocks (front ++ ending)))
    (hr : Resumes (blocks tokens) (blocks (front ++ ending)))
    (hm : ∀ m ∈ made, m.isMissing ∧ m.kind ≠ .terminal .kwImport) (he : Copyable tokens ending) :
    Orderly read issues (blocks (tokens ++ made ++ ending)) ∧
      Resumes (blocks tokens) (blocks (tokens ++ made ++ ending)) := by
  have hmade : blocks (tokens ++ made) = (blocks tokens).modifyHead (.extend (made.filter Token.isName)) :=
    blocks_append_plain fun m hm' => (hm m hm').2
  have hmissing : ∀ n ∈ made.filter Token.isName, n.isMissing := fun n hn => (hm n (List.mem_of_mem_filter hn)).1
  cases he with
  | @header k zs hk hz =>
      rw [blocks_append_cons hk hz] at h' hr
      rw [blocks_append_cons hk hz, hmade]
      exact ⟨h.push h' hr hmissing, hr⟩
  | @name _ front hx hlen htokens =>
      rw [List.append_assoc, blocks_append_plain
        (List.forall_mem_append.mpr ⟨fun m hm' => (hm m hm').2, hx⟩), List.filter_append]
      refine ⟨h.extend fun b hb hc => ?_, .extend _ _⟩
      have hnil := eq_nil_of_clean hc
        (List.Subset.trans (List.subset_append_left _ _) (List.subset_append_right _ _)) hmissing
      rw [hnil, List.nil_append] at hc ⊢
      subst htokens
      exact h.good_again hx hlen b hb hc

end Orderly

/-! ## Where blocks start -/

/-- The tokens of the blocks come in their order. -/
theorem flatMap_blocks_sublist (ts : List Token) :
    ((blocks ts).reverse.flatMap fun b => b.keyword :: b.names).Sublist ts := by
  induction ts using List.reverseRecOn with
  | nil => exact .slnil
  | append_singleton ts t ih =>
      rw [blocks_concat, note]
      split
      · simpa using ih
      · split
        · cases hbs : blocks ts with
          | nil => exact List.nil_sublist _
          | cons b bs =>
              rw [hbs] at ih
              simpa using ih.append_right [t]
        · exact ih.trans (List.sublist_append_left _ _)

namespace Block

variable {b f g : Block}

/-- The token that a block starts with: its keyword, or its first name if that is missing. -/
def start (b : Block) : Token :=
  if b.keyword.isMissing then b.names.headD b.keyword else b.keyword

theorem start_of_written (h : b.keyword.isMissing = false) : b.start = b.keyword := by
  simp [start, h]

theorem head?_of_missing (h : b.keyword.isMissing) (hc : b.clean) : b.names.head? = some b.start := by
  have hne := (clean_iff.mp hc).1
  cases hn : b.names with
  | nil => exact absurd hn hne
  | cons n names => simp [start, h, hn]

theorem start_mem (hc : b.clean) : b.start ∈ b.keyword :: b.names := by
  cases hm : b.keyword.isMissing with
  | false =>
      rw [start_of_written hm]
      exact List.mem_cons_self
  | true => exact List.mem_cons_of_mem _ (List.mem_of_mem_head? (head?_of_missing hm hc))

theorem isMissing_start (hc : b.clean) : b.start.isMissing = false := by
  cases hm : b.keyword.isMissing with
  | false => rwa [start_of_written hm]
  | true => exact (clean_iff.mp hc).2 _ (List.mem_of_mem_head? (head?_of_missing hm hc))

namespace Good

theorem start_le (h : b.Good read issues) (hc : b.clean) : ∀ n ∈ b.names, b.start.start.offset ≤ n.start.offset := by
  cases hm : b.keyword.isMissing with
  | false =>
      rw [start_of_written hm]
      exact h.after
  | true =>
      have hhead := head?_of_missing hm hc
      have hordered := h.ordered
      cases hn : b.names with
      | nil => exact List.forall_mem_nil _
      | cons n names =>
          rw [hn, List.head?_cons, Option.some.injEq] at hhead
          rw [hn, List.pairwise_cons] at hordered
          rw [← hhead]
          exact List.forall_mem_cons.mpr ⟨Nat.le_refl _, hordered.1⟩

theorem keyword_le_start (h : b.Good read issues) (hc : b.clean) :
    b.keyword.start.offset ≤ b.start.start.offset := by
  cases hm : b.keyword.isMissing with
  | false => exact Nat.le_of_eq (by rw [start_of_written hm])
  | true => exact h.after _ (List.mem_of_mem_head? (head?_of_missing hm hc))

end Good

theorem Precedes.start_le (h : f.Precedes g) (hf : f.Good read issues) (hfc : f.clean) (hg : g.Good read issues)
    (hgc : g.clean) : f.start.start.offset ≤ g.start.start.offset := by
  rcases h with ⟨hk, hn⟩ | h
  · have hstart : f.start = g.start := by
      rw [start, start, List.headD_eq_head?_getD, List.headD_eq_head?_getD, hk, hn]
    exact Nat.le_of_eq (by rw [hstart])
  · obtain ⟨n, hn⟩ := List.exists_mem_of_ne_nil _ (clean_iff.mp hfc).1
    calc f.start.start.offset
      _ ≤ n.start.offset := hf.start_le hfc n hn
      _ ≤ g.keyword.start.offset := Nat.le_of_lt (h n hn)
      _ ≤ g.start.start.offset := hg.keyword_le_start hgc

end Block

/-- Clean blocks start one after another. -/
theorem Orderly.starts (h : Orderly read issues bs) :
    (bs.reverse.filter Block.clean).Pairwise fun f g => f.start.start.offset ≤ g.start.start.offset := by
  have hsorted := (List.pairwise_reverse.mpr h.sorted).filter Block.clean
  refine hsorted.imp_of_mem fun {f g} hf hg hprecedes => ?_
  obtain ⟨hf, hfc⟩ := List.mem_filter.mp hf
  obtain ⟨hg, hgc⟩ := List.mem_filter.mp hg
  rw [List.mem_reverse] at hf hg
  exact (hprecedes hfc).start_le (h.good f hf hfc) hfc (h.good g hg hgc) hgc

end Typeahead
