import Typeahead.Proofs.Tree.Leaves

/-!
Trees that derive what they cover. The tokens below such a tree spell out a body of its rule, and its children are
the trees of that body, with those of spliced rules replaced by their own children.
-/

namespace Typeahead

/-! ## Trees side by side -/

/-- Trees side by side, each of which stands in a relation to a symbol and to its share of some tokens. -/
inductive Forest (P : Symbol → List Token → Tree → Prop) : List Symbol → List Token → List Tree → Prop
  | nil : Forest P [] [] []
  | cons {s : Symbol} {ss : List Symbol} {u w : List Token} {t : Tree} {ts : List Tree} :
      P s u t → Forest P ss w ts → Forest P (s :: ss) (u ++ w) (t :: ts)

namespace Forest

variable {P Q : Symbol → List Token → Tree → Prop} {s : Symbol} {ss ss' : List Symbol} {u w : List Token}
  {t : Tree} {ts ts' : List Tree}

theorem append (h : Forest P ss u ts) (h' : Forest P ss' w ts') : Forest P (ss ++ ss') (u ++ w) (ts ++ ts') := by
  induction h with
  | nil => exact h'
  | cons hs _ ih =>
      rw [List.append_assoc]
      exact .cons hs ih

theorem of_append (h : Forest P (ss ++ ss') w ts) :
    ∃ u v us vs, w = u ++ v ∧ ts = us ++ vs ∧ Forest P ss u us ∧ Forest P ss' v vs := by
  induction ss generalizing w ts with
  | nil => exact ⟨[], w, [], ts, rfl, rfl, .nil, h⟩
  | cons s ss ih =>
      cases h with
      | cons hs h =>
          obtain ⟨u, v, us, vs, rfl, rfl, hu, hv⟩ := ih h
          exact ⟨_, v, _, vs, (List.append_assoc ..).symm, rfl, .cons hs hu, hv⟩

theorem single (h : P s w t) : Forest P [s] w [t] := by
  simpa using Forest.cons h .nil

theorem of_single (h : Forest P [s] w ts) : ∃ t, ts = [t] ∧ P s w t := by
  cases h with
  | cons hs h =>
      cases h
      exact ⟨_, rfl, by simpa using hs⟩

theorem imp (h : Forest P ss w ts) (hPQ : ∀ {s u t}, P s u t → Q s u t) : Forest Q ss w ts := by
  induction h with
  | nil => exact .nil
  | cons hs _ ih => exact .cons (hPQ hs) ih

theorem length_eq (h : Forest P ss w ts) : ts.length = ss.length := by
  induction h with
  | nil => rfl
  | cons _ _ ih => rw [List.length_cons, List.length_cons, ih]

theorem forall_tokens {R : Token → Prop} (h : Forest P ss w ts)
    (hPR : ∀ s ∈ ss, ∀ {u t}, P s u t → ∀ token ∈ u, R token) : ∀ token ∈ w, R token := by
  induction h with
  | nil => exact fun _ ht => nomatch ht
  | cons hs _ ih =>
      intro token ht
      rcases List.mem_append.mp ht with ht | ht
      · exact hPR _ List.mem_cons_self hs token ht
      · exact ih (fun s hs => hPR s (List.mem_cons_of_mem _ hs)) token ht

theorem of_mem_gather (h : Forest P ss w ts) {c : Tree} (hc : c ∈ Tree.gather ss ts) :
    ∃ s ∈ ss, ∃ u t, P s u t ∧ c ∈ Tree.share (s, t) := by
  induction h with
  | nil => cases hc
  | @cons s _ u _ t _ hs _ ih =>
      rcases List.mem_append.mp hc with hc | hc
      · exact ⟨s, List.mem_cons_self, u, t, hs, hc⟩
      · obtain ⟨s', hmem, hrest⟩ := ih hc
        exact ⟨s', List.mem_cons_of_mem _ hmem, hrest⟩

end Forest

/-! ## Derivations -/

/-- A tree derives the tokens that it covers from a symbol. -/
inductive Derived : Symbol → List Token → Tree → Prop
  | leaf {a : Terminal} {token : Token} :
      token.kind = .terminal a → token.isMissing = false → Derived (.t a) [token] (.leaf token)
  | node {rule : Rule} {body : List Symbol} {w : List Token} {parts : List Tree} :
      body ∈ rule.alternatives → Forest Derived body w parts → Derived (.r rule) w (Tree.build ⟨rule, body⟩ parts)

namespace Derived

variable {s : Symbol} {a : Terminal} {rule : Rule} {w : List Token} {t : Tree}

/-- What holds of leaves, and of a node when it holds of the parts of its body, holds of all trees that derive. -/
theorem induct {P : Symbol → List Token → Tree → Prop}
    (hleaf : ∀ {a token}, token.kind = .terminal a → token.isMissing = false → P (.t a) [token] (.leaf token))
    (hnode : ∀ {rule body w parts}, body ∈ rule.alternatives →
      Forest (fun s w t => Derived s w t ∧ P s w t) body w parts → P (.r rule) w (Tree.build ⟨rule, body⟩ parts))
    (h : Derived s w t) : P s w t := by
  refine @Derived.rec (fun s w t _ => P s w t)
    (fun ss w ts _ => Forest (fun s w t => Derived s w t ∧ P s w t) ss w ts) ?_ ?_ ?_ ?_ s w t h
  · intro a token hk hm
    exact hleaf hk hm
  · intro rule body w parts hb _ ih
    exact hnode hb ih
  · exact .nil
  · intro s ss u w t ts hs _ ihs ih
    exact .cons ⟨hs, ihs⟩ ih

theorem of_terminal (h : Derived (.t a) w t) :
    ∃ token, w = [token] ∧ t = .leaf token ∧ token.kind = .terminal a ∧ token.isMissing = false := by
  cases h with
  | leaf hk hm => exact ⟨_, rfl, rfl, hk, hm⟩

theorem of_rule (h : Derived (.r rule) w t) :
    ∃ body ∈ rule.alternatives, ∃ parts, Forest Derived body w parts ∧ t = Tree.build ⟨rule, body⟩ parts := by
  cases h with
  | node hb hforest => exact ⟨_, hb, _, hforest, rfl⟩

/-- A tree of a rule that never collapses is a node of the rule. -/
theorem eq_node (h : Derived (.r rule) w t) (hc : rule.collapses = false) :
    ∃ body ∈ rule.alternatives, ∃ parts, Forest Derived body w parts ∧
      t = .node rule (Tree.cover parts) (Tree.gather body parts) := by
  obtain ⟨body, hb, parts, hforest, rfl⟩ := h.of_rule
  refine ⟨body, hb, parts, hforest, ?_⟩
  rcases Tree.collapsed_or_node ⟨rule, body⟩ parts with ⟨hcollapses, _⟩ | hnode
  · cases hc.symm.trans hcollapses
  · exact hnode

end Derived

/-- Terminals are derived by their own leaves. -/
theorem Forest.terminals {as : List Terminal} {w : List Token} {ts : List Tree}
    (h : Forest Derived (as.map .t) w ts) :
    ts = w.map .leaf ∧ w.map Token.kind = as.map .terminal ∧ ∀ token ∈ w, token.isMissing = false := by
  induction as generalizing w ts with
  | nil =>
      cases h
      exact ⟨rfl, rfl, fun _ ht => nomatch ht⟩
  | cons a as ih =>
      rw [List.map_cons] at h
      cases h with
      | cons ha h =>
          obtain ⟨token, rfl, rfl, hk, hm⟩ := ha.of_terminal
          obtain ⟨rfl, hkinds, hmissing⟩ := ih h
          refine ⟨rfl, ?_, ?_⟩
          · rw [List.singleton_append, List.map_cons, hk, hkinds, List.map_cons]
          · rw [List.singleton_append, List.forall_mem_cons]
            exact ⟨hm, hmissing⟩

theorem Tree.gather_terminals {as : List Terminal} {us : List Token} (h : us.length = as.length)
    (ss : List Symbol) (ts : List Tree) :
    gather (as.map .t ++ ss) (us.map leaf ++ ts) = us.map leaf ++ gather ss ts := by
  induction us generalizing as with
  | nil =>
      obtain rfl := List.length_eq_zero_iff.mp h.symm
      rfl
  | cons u us ih =>
      cases as with
      | nil => cases h
      | cons a as =>
          have hrest := ih (Nat.succ.inj h)
          rw [gather] at hrest
          simp [gather, hrest, share, Symbol.spliced]

/-! ## Nodes among the children -/

/-- The nodes of a rule are children only of rules that have it in a body. -/
structure Rule.Kept (r : Rule) : Prop where
  not_spliced : r.spliced = false
  not_collapses : r.collapses = false
  notMem : ∀ rule : Rule, rule.spliced ∨ rule.collapses → ∀ body ∈ rule.alternatives, .r r ∉ body

namespace Rule.Kept

variable {r : Rule}

theorem isNode_share (hr : r.Kept) {s : Symbol} {w : List Token} {t : Tree} (h : Derived s w t) (hs : s ≠ .r r) :
    ∀ c ∈ Tree.share (s, t), c.isNode r = false := by
  revert hs
  refine h.induct (P := fun s w t => s ≠ .r r → ∀ c ∈ Tree.share (s, t), c.isNode r = false) ?_ ?_
  · intro a token _ _ _ c hc
    obtain rfl := List.mem_singleton.mp hc
    rfl
  · intro rule body w parts hb hparts hrule c hc
    have hgather (h : rule.spliced ∨ rule.collapses) :
        ∀ c ∈ Tree.gather body parts, c.isNode r = false := by
      intro c hc
      obtain ⟨s, hmem, _, _, ⟨_, ih⟩, hshare⟩ := hparts.of_mem_gather hc
      refine ih ?_ c hshare
      rintro rfl
      exact hr.notMem rule h body hb hmem
    rcases Tree.collapsed_or_node ⟨rule, body⟩ parts with ⟨hcollapses, hchild⟩ | hnode
    · have hs : rule.spliced = false := by
        cases hs : rule.spliced with
        | false => rfl
        | true => cases (Tree.not_collapses_of_spliced hs).symm.trans hcollapses
      refine hgather (.inr hcollapses) c ?_
      rw [hchild]
      simpa [Tree.share, Symbol.spliced, hs] using hc
    · rw [hnode] at hc
      by_cases hs : rule.spliced
      · refine hgather (.inl hs) c ?_
        simpa [Tree.share, Symbol.spliced, hs, Tree.children] using hc
      · have hne : rule ≠ r := fun h => hrule (congrArg Symbol.r h)
        obtain rfl : c = .node rule (Tree.cover parts) (Tree.gather body parts) := by
          simpa [Tree.share, Symbol.spliced, hs] using hc
        simp [Tree.isNode, hne]

/-- The children of a node that are nodes of a rule stand where the rule stands in the body. -/
theorem filter_gather (hr : r.Kept) {ss : List Symbol} {w : List Token} {ts : List Tree}
    (h : Forest Derived ss w ts) :
    (Tree.gather ss ts).filter (Tree.isNode r) = ((ss.zip ts).filter (·.1 = .r r)).map Prod.snd := by
  induction h with
  | nil => rfl
  | @cons s _ _ _ t _ hs _ ih =>
      rw [Tree.gather] at ih ⊢
      rw [List.zip_cons_cons, List.flatMap_cons, List.filter_append, ih]
      by_cases hsymbol : s = .r r
      · subst hsymbol
        obtain ⟨_, _, _, _, rfl⟩ := hs.eq_node hr.not_collapses
        simp [Tree.share, Symbol.spliced, hr.not_spliced, Tree.isNode]
      · have hnone : (Tree.share (s, t)).filter (Tree.isNode r) = [] := by
          rw [List.filter_eq_nil_iff]
          intro c hc
          simp [hr.isNode_share hs hsymbol c hc]
        simp [hnone, hsymbol]

end Rule.Kept

end Typeahead
