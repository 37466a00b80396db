import Mathlib.Logic.Relation
import Typeahead.Proofs.Import.Opening
import Typeahead.Proofs.Parser.Derived
import Typeahead.Proofs.Parser.Trial

/-!
What a trial adds to the parser's trees, one addition at a time. Each goes to a tree for a spliced rule, and gives it
all that the trial has above that tree: the tokens read so far and perhaps one that is missing, but never a
missing import keyword, since nothing is complete after that one.
-/

namespace Typeahead

open Automaton Typeahead.Tree

variable {ss ss₀ rest : List Symbol} {s s' : Symbol} {stack stack' values : List Tree} {read made : List Token}

/-! ## Stacks of trees -/

theorem forall₂_middle {R : Symbol → Tree → Prop} {sa sb : List Symbol} {above below : List Tree} {v : Tree}
    (hl : sa.length = above.length) : List.Forall₂ R (sa ++ s :: sb) (above ++ v :: below) ↔
      List.Forall₂ R sa above ∧ R s v ∧ List.Forall₂ R sb below := by
  induction sa generalizing above with
  | nil =>
      obtain rfl := List.length_eq_zero_iff.mp hl.symm
      simp
  | cons a sa ih =>
      cases above with
      | nil => cases hl
      | cons t above => simp [ih (Nat.succ.inj hl), and_assoc]

theorem modify_middle (above : List Tree) (v : Tree) (below : List Tree) (f : Tree → Tree) :
    (above ++ v :: below).modify above.length f = above ++ f v :: below := by
  induction above with
  | nil => rfl
  | cons t above ih => simpa using ih

theorem Shaped.reduce {p : Production} (hb : p.body ∈ p.rule.alternatives)
    (h : List.Forall₂ Shaped (p.body.reverse ++ rest) stack) :
    List.Forall₂ Shaped (.r p.rule :: rest) (Tree.reduce stack p) := by
  obtain ⟨hparts, hrest⟩ := forall₂_parts h
  exact .cons (Shaped.build hb hparts) hrest

theorem Shaped.fills_all (h : List.Forall₂ Shaped ss stack) : List.Forall₂ Fills ss stack :=
  h.imp fun _ _ => Shaped.fills

/-! ## Additions -/

/-- Tokens that the parser made up, no import keyword among them. -/
def Minor (made : List Token) : Prop :=
  ∀ m ∈ made, m.isMissing ∧ m.kind ≠ .terminal .kwImport

/-- The addition of the rest of a body to a tree: after it, the tree and what lies below have all the tokens that were
read, and perhaps some that were made up. -/
inductive Addition (ss : List Symbol) (read : List Token) : List Tree → List Tree → Prop
  | mk {sa sb : List Symbol} {s : Symbol} {above below parts : List Tree} {v : Tree} {rule : Rule}
      {body : List Symbol} {made : List Token} :
      ss = sa ++ s :: sb → sa.length = above.length → s.spliced →
      body ∈ rule.alternatives → (s ∈ Shaped.steady → body.head? = some s) → List.Forall₂ Shaped body.tail parts →
      leavesAll (v :: below) ++ parts.flatMap leaves = read ++ made → Minor made →
      Addition ss read (above ++ v :: below) (above ++ v.extend (gather body.tail parts) :: below)

namespace Addition

theorem shaped (h : Addition ss read stack stack') (hs : List.Forall₂ Shaped ss stack) :
    List.Forall₂ Shaped ss stack' := by
  cases h with
  | mk hss hl hsp hb hhead hparts _ _ =>
      subst hss
      rw [forall₂_middle hl] at hs ⊢
      exact ⟨hs.1, hs.2.1.extend hsp hb hhead hparts, hs.2.2⟩

theorem shaped_all (h : Relation.ReflTransGen (Addition ss read) stack stack') (hs : List.Forall₂ Shaped ss stack) :
    List.Forall₂ Shaped ss stack' := by
  induction h with
  | refl => exact hs
  | tail _ hadd ih => exact hadd.shaped ih

/-- The trees down to the first one for a spliced rule stay as they are. -/
theorem take_eq (h : Addition ss read stack stack') {n : Nat} (hn : ∀ s ∈ ss.take n, ¬ s.spliced) :
    stack'.take n = stack.take n := by
  cases h with
  | @mk sa sb s above _ _ _ _ _ _ hss hl hsp _ _ _ _ _ =>
      have hle : n ≤ above.length := by
        refine Nat.le_of_not_lt fun hlt => hn s ?_ hsp
        obtain ⟨k, hk⟩ := Nat.exists_eq_add_of_lt hlt
        rw [hss, List.take_append, hl, hk, Nat.add_assoc, Nat.add_sub_cancel_left, List.take_succ_cons]
        exact List.mem_append_right _ List.mem_cons_self
      rw [List.take_append_of_le_length hle, List.take_append_of_le_length hle]

/-- So does the lowest one, unless it is for a spliced rule. -/
theorem getLast?_eq (h : Addition ss read stack stack') (hs : List.Forall₂ Shaped ss stack)
    (hlast : ∀ s ∈ ss.getLast?, ¬ s.spliced) : stack'.getLast? = stack.getLast? := by
  cases h with
  | @mk sa sb s above below _ _ _ _ _ hss hl hsp _ _ _ _ _ =>
      subst hss
      cases below with
      | nil =>
          cases ((forall₂_middle hl).mp hs).2.2
          exact absurd hsp (hlast s (by simp))
      | cons b below => simp

/-- After an addition, the tokens above the tree come after all that was read. -/
theorem leaves_eq (h : Addition ss read stack stack') (hs : List.Forall₂ Shaped ss stack) :
    ∃ sa s sb above below made, ss = sa ++ s :: sb ∧ s.spliced ∧ List.Forall₂ Shaped sa above ∧ Minor made ∧
      stack = above ++ below ∧ leavesAll stack' = read ++ made ++ leavesAll above := by
  cases h with
  | @mk sa sb s above below parts v _ _ made hss hl hsp _ _ hparts hleaves hmade =>
      subst hss
      obtain ⟨habove, hv, _⟩ := (forall₂_middle hl).mp hs
      refine ⟨sa, s, sb, above, v :: below, made, rfl, hsp, habove, hmade, rfl, ?_⟩
      rw [leavesAll_append, leavesAll_cons, leaves_extend_of_node (hv.fills hsp),
        leaves_gather (Shaped.fills_all hparts), ← List.append_assoc, ← leavesAll_cons, hleaves]

theorem take_eq_all (h : Relation.ReflTransGen (Addition ss read) stack stack') {n : Nat}
    (hn : ∀ s ∈ ss.take n, ¬ s.spliced) : stack'.take n = stack.take n := by
  induction h with
  | refl => rfl
  | tail _ hadd ih => rw [hadd.take_eq hn, ih]

theorem getLast?_eq_all (h : Relation.ReflTransGen (Addition ss read) stack stack') (hs : List.Forall₂ Shaped ss stack)
    (hlast : ∀ s ∈ ss.getLast?, ¬ s.spliced) : stack'.getLast? = stack.getLast? := by
  induction h with
  | refl => rfl
  | tail hadds hadd ih => rw [hadd.getLast?_eq (shaped_all hadds hs) hlast, ih]

end Addition

/-- A missing token is no import keyword, or no reduction comes after it. -/
theorem minor_or_incomplete {q q' : State} {u : Terminal} (hq : shift? q u = some q') (place : Position) :
    Minor [Token.missing u place] ∨ (row q').complete = none := by
  by_cases hu : u = .kwImport
  · subst hu
    have hsymbol := symbol_of_next? (s := .t .kwImport) hq
    exact .inr (after_import _ (row_mem (lt_of_symbol hsymbol)) hsymbol).1
  · refine .inl (List.forall_mem_singleton.mpr ⟨rfl, ?_⟩)
    rintro ⟨⟩
    exact hu rfl

/-! ## Trials beside the parser -/

/-- Whether a draft for one symbol may go on with a tree for another. The repeated parts of a preamble are only ever
gone on with by their own rule. -/
def Resumable (s s' : Symbol) : Prop :=
  s = s' ∨ s'.spliced ∧ (s' ∈ Shaped.steady → ¬ s.spliced)

/-- How the drafts of a trial lie beside the trees of its parser: below some drafts of its own are the parser's trees,
the uppermost of which it may have gone on with. -/
inductive Mirror (ss₀ : List Symbol) (values : List Tree) : List Symbol → List Draft → Prop
  | same {sa ss : List Symbol} {above vs : List Tree} : sa.length = above.length → ss₀ = sa ++ ss →
      values = above ++ vs → Mirror ss₀ values ss (vs.map (⟨·, true⟩))
  | longer {sa ss : List Symbol} {s s' : Symbol} {above vs : List Tree} {tree v : Tree} :
      sa.length = above.length → ss₀ = sa ++ s' :: ss → values = above ++ v :: vs → Resumable s s' →
      tree.leaves = v.leaves → Mirror ss₀ values (s :: ss) (⟨tree, true⟩ :: vs.map (⟨·, true⟩))
  | own {ss : List Symbol} {ds : List Draft} {s : Symbol} {tree : Tree} :
      Mirror ss₀ values ss ds → Mirror ss₀ values (s :: ss) (⟨tree, false⟩ :: ds)

namespace Mirror

variable {d : Draft} {ds : List Draft}

/-- The uppermost draft is the trial's own, or goes on with one of the parser's trees. -/
theorem of_cons (h : Mirror ss₀ values (s :: ss) (d :: ds)) :
    (d.shared = false ∧ Mirror ss₀ values ss ds) ∨
    ∃ (sa : List Symbol) (s' : Symbol) (above : List Tree) (v : Tree) (vs : List Tree), sa.length = above.length ∧
      ss₀ = sa ++ s' :: ss ∧ values = above ++ v :: vs ∧ ds = vs.map (⟨·, true⟩) ∧ Resumable s s' ∧
      d.tree.leaves = v.leaves := by
  generalize hss : s :: ss = ss' at h
  generalize hds : d :: ds = ds' at h
  cases h with
  | @same sa _ above vs hl hss₀ hvalues =>
      cases vs with
      | nil => cases hds
      | cons v vs =>
          cases hds
          exact .inr ⟨sa, s, above, v, vs, hl, hss ▸ hss₀, hvalues, rfl, .inl rfl, rfl⟩
  | longer hl hss₀ hvalues hr hleaves =>
      cases hss
      cases hds
      exact .inr ⟨_, _, _, _, _, hl, hss₀, hvalues, rfl, hr, hleaves⟩
  | own h =>
      cases hss
      cases hds
      exact .inl ⟨rfl, h⟩

theorem tail (h : Mirror ss₀ values (s :: ss) (d :: ds)) : Mirror ss₀ values ss ds := by
  rcases h.of_cons with ⟨_, h⟩ | ⟨sa, s', above, v, vs, hl, hss₀, hvalues, rfl, _, _⟩
  · exact h
  · have hlen : (sa ++ [s']).length = (above ++ [v]).length := by simp [hl]
    exact .same hlen (by simpa using hss₀) (by simpa using hvalues)

theorem drop {sa : List Symbol} {da : List Draft} (hl : sa.length = da.length)
    (h : Mirror ss₀ values (sa ++ ss) (da ++ ds)) : Mirror ss₀ values ss ds := by
  induction sa generalizing da with
  | nil =>
      obtain rfl := List.length_eq_zero_iff.mp hl.symm
      exact h
  | cons a sa ih =>
      cases da with
      | nil => cases hl
      | cons d da => exact ih (Nat.succ.inj hl) h.tail

end Mirror

theorem rule_of_steady {rule : Rule} : ∀ body ∈ rule.alternatives, ∀ s ∈ Shaped.steady, body.head? = some s →
    s = .r rule ∨ rule.spliced = false := by
  cases rule <;> decide

/-- A tree that was gone on with can be gone on with once more. -/
theorem Resumable.rule {rule : Rule} {body : List Symbol} (h : Resumable s s') (hb : body ∈ rule.alternatives)
    (hhead : body.head? = some s) (hs : s.spliced) :
    s'.spliced ∧ (s' ∈ Shaped.steady → body.head? = some s') ∧ Resumable (.r rule) s' := by
  rcases h with rfl | ⟨hs', hst⟩
  · refine ⟨hs, fun _ => hhead, or_iff_not_imp_left.mpr fun hne => ⟨hs, fun hmem hr => ?_⟩⟩
    rcases rule_of_steady body hb s hmem hhead with heq | hspliced
    · exact hne heq.symm
    · rw [Symbol.spliced, hspliced] at hr
      cases hr
  · exact ⟨hs', fun hmem => absurd hs (hst hmem), .inr ⟨hs', fun hmem => absurd hs (hst hmem)⟩⟩

namespace Trial

variable {t : Trial} {p : Production} {a : Lookahead} {qs qs' : List State}

theorem drafts_eq (t : Trial) (p : Production) : (t.reduce p).drafts =
    ⟨Tree.build p ((t.drafts.take p.body.length).reverse.map Draft.tree), t.continues p⟩ ::
      t.drafts.drop p.body.length := rfl

theorem spliced_of_continues (h : t.continues p) : ∃ s rest, p.body = s :: rest ∧ s.spliced := by
  simp only [continues, Bool.and_eq_true] at h
  cases hb : p.body with
  | nil => simp [hb] at h
  | cons s rest => exact ⟨s, rest, rfl, by simpa [hb] using h.1⟩

/-- What holds throughout a trial: its drafts have the right shapes, lie beside the parser's trees, and have the tokens
that were read and those that the trial made up. -/
structure Beside (ss₀ : List Symbol) (read made : List Token) (qs : List State) (t : Trial) : Prop where
  stands : ∃ ss, Spells qs ss ∧ List.Forall₂ Shaped ss (t.drafts.map Draft.tree) ∧ Mirror ss₀ t.values ss t.drafts
  leaves : leavesAll (t.drafts.map Draft.tree) = read ++ made
  shaped : List.Forall₂ Shaped ss₀ t.values

namespace Beside

theorem of {q : Parser} (hs : Spells q.states ss₀) (hv : List.Forall₂ Shaped ss₀ q.values) :
    Beside ss₀ (leavesAll q.values) [] q.states (Trial.of q) := by
  have htrees : (Trial.of q).drafts.map Draft.tree = q.values := by
    simp [Trial.of, Function.comp_def]
  have hnil : ([] : List Symbol).length = ([] : List Tree).length := rfl
  exact ⟨⟨ss₀, hs, by rwa [htrees], .same hnil rfl rfl⟩, by rw [htrees, List.append_nil], hv⟩

/-- A reduction that goes on with one of the parser's trees is an addition to it. -/
theorem addition (h : t.Beside ss₀ read made qs) (hm : Minor made)
    (hf : List.Forall₂ Shaped (p.body.reverse ++ rest) (t.drafts.map Draft.tree))
    (hmirror : Mirror ss₀ t.values (p.body.reverse ++ rest) t.drafts)
    (hb : p.body ∈ p.rule.alternatives) (hc : t.continues p) :
    Addition ss₀ read t.values (t.reduce p).values ∧
      Mirror ss₀ (t.reduce p).values (.r p.rule :: rest) (t.reduce p).drafts := by
  obtain ⟨d, parts, hd, hparts, hsplit⟩ := exists_of_continues hc
  obtain ⟨s, tail, hbody, hs⟩ := spliced_of_continues hc
  have hforall := forall₂_drafts hf
  rw [hparts, hbody, List.map_cons] at hforall
  obtain ⟨_, htail⟩ := List.forall₂_cons.mp hforall
  have hlen : tail.reverse.length = parts.reverse.length := by
    simpa using htail.length_eq
  -- The tree that is gone on with, and what lies below it, in the parser.
  rw [hbody, List.reverse_cons, List.append_assoc, List.singleton_append, hsplit] at hmirror
  rcases (hmirror.drop hlen).of_cons with ⟨hown, _⟩ | ⟨sa, s', above, v, vs, hl, hss₀, hvalues, hdrop, hres, hleaves⟩
  · rw [hd] at hown
    cases hown
  obtain ⟨hs', hhead, hres'⟩ := hres.rule hb (by rw [hbody]; rfl) hs
  have hadded : t.addition p = gather p.body.tail (parts.map Draft.tree) := by
    rw [Trial.addition, hparts]
    rfl
  have hnew : (t.reduce p).values = above ++ v.extend (t.addition p) :: vs := by
    rw [values_reduce_of_continues hc, hvalues, hdrop, ← modify_middle]
    congr 1
    simp
  have hv : v.token? = none := by
    have hshaped := h.shaped
    rw [hss₀, hvalues] at hshaped
    exact ((forall₂_middle hl).mp hshaped).2.1.fills hs'
  have hrest : List.Forall₂ Shaped p.body.tail (parts.map Draft.tree) := by
    rw [hbody]
    exact htail
  constructor
  · rw [hnew, hadded, hvalues]
    refine .mk hss₀ hl hs' hb hhead hrest ?_ hm
    rw [← h.leaves, hsplit, hdrop, List.map_append, List.map_cons, leavesAll_append, leavesAll_cons, leavesAll_cons,
      hleaves]
    simp [leavesAll, Function.comp_def]
  · rw [drafts_eq, hdrop, hc]
    refine .longer hl hss₀ hnew hres' ?_
    rw [leaves_build (Shaped.fills_all (forall₂_drafts hf)), hparts, List.map_cons, List.flatMap_cons, hleaves,
      leaves_extend_of_node hv, hadded, leaves_gather (Shaped.fills_all hrest)]

theorem reduce (h : t.Beside ss₀ read made qs) (hm : Minor made) (hr : reduce? qs a = some (p, qs')) :
    (t.reduce p).Beside ss₀ read made qs' ∧
      Relation.ReflTransGen (Addition ss₀ read) t.values (t.reduce p).values := by
  obtain ⟨ss, hs, hf, hmirror⟩ := h.stands
  have hb := alternative_of_complete _ (row_mem hs.top_lt) p (complete_of_reduce? hr)
  obtain ⟨rest, rfl, hs'⟩ := hs.reduce? hr
  have hleaves : leavesAll ((t.reduce p).drafts.map Draft.tree) = read ++ made := by
    rw [drafts_reduce, leavesAll_reduce (Shaped.fills_all hf), h.leaves]
  have hshaped : List.Forall₂ Shaped (.r p.rule :: rest) ((t.reduce p).drafts.map Draft.tree) := by
    rw [drafts_reduce]
    exact Shaped.reduce hb hf
  by_cases hc : t.continues p
  · obtain ⟨hadd, hmirror'⟩ := h.addition hm hf hmirror hb hc
    exact ⟨⟨⟨_, hs', hshaped, hmirror'⟩, hleaves, hadd.shaped h.shaped⟩, .single hadd⟩
  · have hvalues := values_reduce_of_not_continues hc
    have hlen : p.body.reverse.length = (t.drafts.take p.body.length).length := by
      simpa using (forall₂_drafts hf).length_eq
    rw [← List.take_append_drop p.body.length t.drafts] at hmirror
    refine ⟨⟨⟨_, hs', hshaped, ?_⟩, hleaves, hvalues ▸ h.shaped⟩, by rw [hvalues]⟩
    rw [hvalues, drafts_eq, Bool.eq_false_iff.mpr hc]
    exact .own (hmirror.drop hlen)

theorem settle (h : t.Beside ss₀ read made t.states) (a : Lookahead)
    (hm : Minor made ∨ (row (top t.states)).complete = none) :
    (t.settle a).Beside ss₀ read made (t.settle a).states ∧
      Relation.ReflTransGen (Addition ss₀ read) t.values (t.settle a).values := by
  obtain ⟨ss, hs, _⟩ := h.stands
  have hsettles := (hs.settles a).foldl (f := Trial.reduce)
    (M := fun qs t' => (Minor made ∨ (row (top qs)).complete = none) ∧ t'.Beside ss₀ read made qs ∧
      Relation.ReflTransGen (Addition ss₀ read) t.values t'.values) ?_ ⟨hm, h, .refl⟩
  · exact ⟨⟨hsettles.2.1.stands, hsettles.2.1.leaves, hsettles.2.1.shaped⟩, hsettles.2.2⟩
  · rintro qs qs' p t' hr ⟨hm, h', hadds⟩
    have hm : Minor made := by
      refine hm.resolve_right fun hnone => ?_
      rw [complete_of_reduce? hr] at hnone
      cases hnone
    obtain ⟨hreduced, hadd⟩ := h'.reduce hm hr
    exact ⟨.inl hm, hreduced, hadds.trans hadd⟩

theorem push (h : t.Beside ss₀ read made t.states) {u : Terminal} {q : State} (hq : shift? (top t.states) u = some q)
    (place : Position) :
    (t.push q u place).Beside ss₀ read (made ++ [Token.missing u place]) (t.push q u place).states := by
  obtain ⟨ss, hs, hf, hmirror⟩ := h.stands
  refine ⟨⟨_, hs.shift? hq, .cons (Shape.leaf_singleton_iff.mpr ⟨_, rfl, rfl⟩) hf, .own hmirror⟩, ?_, h.shaped⟩
  rw [Trial.push, List.map_cons, leavesAll_cons, h.leaves, leaves_leaf, List.append_assoc]

/-- A trial of a terminal before another only makes additions. -/
theorem play (h : t.Beside ss₀ read [] t.states) (place : Position) (u : Terminal) (wanted : Option Terminal) :
    Relation.ReflTransGen (Addition ss₀ read) t.values (t.play place (u :: wanted.toList)).values := by
  obtain ⟨hsettle, hadds⟩ := h.settle (.token u) (.inl (List.forall_mem_nil _))
  cases hq : shift? (top (t.settle (.token u)).states) u with
  | none =>
      rw [play_cons_of_none hq]
      exact hadds
  | some q =>
      rw [play_cons_of_some hq]
      have hpush := hsettle.push hq place
      cases wanted with
      | none => exact hadds
      | some w =>
          obtain ⟨_, hadds'⟩ := hpush.settle (.token w) (minor_or_incomplete hq place)
          rw [Option.toList_some]
          cases hq' : shift? (top (((t.settle (.token u)).push q u place).settle (.token w)).states) w with
          | none =>
              rw [play_cons_of_none hq']
              exact hadds.trans hadds'
          | some q' =>
              rw [play_cons_of_some hq']
              exact hadds.trans hadds'

end Beside

end Trial

/-! ## Searches -/

/-- What every addition that a trial may make keeps is kept by a search. -/
theorem Parser.search_induct {p : Parser} {I : List Tree → Prop} (hs : Spells p.states ss)
    (hv : List.Forall₂ Shaped ss p.values) (hI : I p.values)
    (hstep : ∀ stack stack', List.Forall₂ Shaped ss stack → I stack →
      Relation.ReflTransGen (Addition ss (leavesAll stack)) stack stack' → I stack')
    (place : Position) (wanted : Option Terminal) :
    List.Forall₂ Shaped ss (p.search place wanted).values ∧ I (p.search place wanted).values := by
  unfold Parser.search
  induction Recovery.tried p.states wanted generalizing p with
  | nil => exact ⟨hv, hI⟩
  | cons u us ih =>
      have hadds := Trial.Beside.play (t := Trial.of p) (.of hs hv) place u wanted
      exact ih (p := p.attempt place (u :: wanted.toList)) hs (Addition.shaped_all hadds hv) (hstep _ _ hv hI hadds)

end Typeahead
