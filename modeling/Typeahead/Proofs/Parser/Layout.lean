import Typeahead.Proofs.Parser.Repetition
import Typeahead.Proofs.Tree.Layout

/-!
How the parser's trees lie over the text. Reductions and tokens keep them in order; so do trials, since what
they add to an open tree of the parser is all that lies above it.
-/

namespace Typeahead

open Automaton Recovery Typeahead.Tree

/-! ## Trials -/

/-- What a tree that a trial shares has in common with the parser's own tree: the trees above them have the
same tokens, but for some that the parser's own tree has already. -/
structure Shares (above : List Tree) (d : Tree) (above' : List Tree) (v : Tree) : Prop where
  isOpen : d.isOpen → v.isOpen
  subset : written d.leaves ⊆ written v.leaves
  covers : written v.leaves ++ written (leavesAll above') ⊆ written d.leaves ++ written (leavesAll above)

namespace Shares

variable {above above' upper upper' extra : List Tree} {d d' v : Tree}

theorem refl (above : List Tree) (v : Tree) : Shares above v above v :=
  ⟨id, List.Subset.refl _, List.Subset.refl _⟩

/-- What is shared further down stays so when the trees above change. -/
theorem of_above (h : Shares above d above' v) (hd : written (leavesAll upper) = written (leavesAll above))
    (hv : written (leavesAll upper') ⊆ written (leavesAll above') ++ written (leavesAll above)) :
    Shares upper d upper' v := by
  refine ⟨h.isOpen, h.subset, ?_⟩
  rw [hd]
  obtain ⟨hleft, hright⟩ := List.append_subset.mp h.covers
  refine List.append_subset.mpr ⟨hleft, List.Subset.trans hv (List.append_subset.mpr ⟨hright, ?_⟩)⟩
  exact List.subset_append_right _ _

/-- A shared tree and the parser's own one are continued together. -/
theorem continued (h : Shares above d above' v) (hv : v.isOpen) (hx : extra.flatMap leaves = leavesAll above)
    (hd : d'.leaves = d.leaves ++ leavesAll above) : Shares [] d' above' (v.extend extra) := by
  have hleaves := leaves_extend_of_isOpen hv extra
  rw [hx] at hleaves
  obtain ⟨hleft, hright⟩ := List.append_subset.mp h.covers
  refine ⟨fun _ => by rwa [isOpen_extend], ?_, ?_⟩
  · rw [hd, hleaves, written_append, written_append]
    exact List.append_subset.mpr ⟨List.subset_append_of_subset_left _ h.subset, List.subset_append_right _ _⟩
  · rw [hd, hleaves, written_append, written_append]
    refine List.subset_append_of_subset_left _ (List.append_subset.mpr ⟨?_, hright⟩)
    exact List.append_subset.mpr ⟨hleft, List.subset_append_right _ _⟩

end Shares

namespace Trial

variable {t : Trial} {p : Production} {a : Lookahead} {qs qs' : List State} {ss : List Symbol}
  {place : Position}

/-- What holds throughout a trial of its own trees and of the parser's. -/
structure Laid (ss : List Symbol) (place : Position) (qs : List State) (t : Trial) : Prop where
  sound : Sound qs t
  drafts : ∃ ss, Spells qs ss ∧ Standing ss (t.drafts.map Draft.tree)
  pastDrafts : Past place (t.drafts.map Draft.tree)
  values : Standing ss t.values
  past : Past place t.values
  shares : ∀ above d below, t.drafts = above ++ d :: below → d.shared →
    ∃ above' v below', t.values = above' ++ v :: below' ∧ below'.length = below.length ∧
      Shares (above.map Draft.tree) d.tree above' v

namespace Laid

/-- All that a reduction does which goes on with a shared tree. -/
theorem continued (h : Laid ss place qs t) (hr : reduce? qs a = some (p, qs')) (hc : t.continues p) :
    ∃ parts d above v below, t.drafts = parts ++ d :: t.drafts.drop p.body.length ∧
      t.values = above ++ v :: below ∧ below.length = (t.drafts.drop p.body.length).length ∧
      (t.reduce p).values = above ++ v.extend (t.addition p) :: below ∧
      Shares (parts.map Draft.tree) d.tree above v ∧ v.isOpen ∧
      (t.addition p).flatMap leaves = leavesAll (parts.map Draft.tree) ∧
      written (leavesAll (parts.map Draft.tree)) ⊆ written (leavesAll above) := by
  obtain ⟨d, parts, hd, hparts, hsplit⟩ := exists_of_continues hc
  obtain ⟨above, v, below, hvalues, hlen, hshares⟩ := h.shares _ _ _ hsplit hd
  have hlt := h.sound.shared _ _ _ hsplit hd
  obtain ⟨ss', hs, hst⟩ := h.drafts
  obtain ⟨rest, rfl, _⟩ := hs.reduce? hr
  have htrees : t.drafts.map Draft.tree =
      parts.reverse.map Draft.tree ++ d.tree :: (t.drafts.drop p.body.length).map Draft.tree := by
    conv_lhs => rw [hsplit, List.map_append, List.map_cons]
  have hadd : (t.addition p).flatMap leaves = leavesAll (parts.reverse.map Draft.tree) := by
    rw [leaves_addition hst.fills, htrees, ← List.length_map (f := Draft.tree), leavesFrom_above]
  refine ⟨parts.reverse, d, above, v, below, hsplit, hvalues, hlen, ?_, hshares, hshares.isOpen ?_, hadd, ?_⟩
  · obtain ⟨above₂, v₂, below₂, hvalues₂, hlen₂, hmodify⟩ := exists_modify hlt (Tree.extend (t.addition p))
    obtain ⟨rfl, heq⟩ := List.append_inj' (hvalues.symm.trans hvalues₂) (by simp [hlen, hlen₂])
    obtain ⟨rfl, rfl⟩ := List.cons.inj heq
    rw [values_reduce_of_continues hc, hmodify]
  · -- The first part of the body stands for a spliced rule.
    have hbody := forall₂_drafts hst.stands
    rw [hparts, List.map_cons] at hbody
    simp only [continues, Bool.and_eq_true] at hc
    cases hb : p.body with
    | nil => simp [hb] at hc
    | cons s ss =>
        rw [hb] at hbody
        cases hbody with
        | cons hstands _ => exact hstands.isOpen_of_spliced (by simpa [hb] using hc.1)
  · have hwithin := h.sound.within (below.length + 1)
    rw [hvalues, leavesFrom_above, htrees, hlen, ← List.length_map (f := Draft.tree), leavesFrom_above] at hwithin
    exact hwithin

theorem standing_reduce (h : Laid ss place qs t) (hr : reduce? qs a = some (p, qs')) :
    Standing ss (t.reduce p).values ∧ Past place (t.reduce p).values := by
  by_cases hc : t.continues p
  · obtain ⟨parts, d, above, v, below, hdrafts, hvalues, _, hnew, hshares, hopen, hadd, hsub⟩ :=
      h.continued hr hc
    obtain ⟨ss', hs, hst⟩ := h.drafts
    obtain ⟨rest, rfl, _⟩ := hs.reduce? hr
    have hv := h.values
    have hpast := h.past
    rw [hvalues] at hv hpast
    have htight : ∀ x ∈ t.addition p, Tight x :=
      (tight_gather (by simpa using List.forall₂_drop 1 (forall₂_drafts hst.stands))).2
    rw [hnew]
    refine ⟨⟨forall₂_replace hv.stands fun s hst => hst.extend hopen htight, hv.laid.extend hopen ?_ ?_ ?_⟩,
      hpast.extend⟩
    · rw [hadd]
      refine hst.laid.inOrder _ (d.tree :: (t.drafts.drop p.body.length).map Draft.tree) ?_
      conv_lhs => rw [hdrafts, List.map_append, List.map_cons]
    · rw [hadd]
      exact hsub
    · rw [hadd]
      refine List.Subset.trans (List.append_subset.mp hshares.covers).2 (List.append_subset.mpr ⟨?_, ?_⟩)
      · exact List.subset_append_of_subset_left _ hshares.subset
      · exact List.subset_append_right _ _
  · rw [values_reduce_of_not_continues hc]
    exact ⟨h.values, h.past⟩

/-- What is shared below the parts of a reduction stays shared. -/
theorem shares_below (h : Laid ss place qs t) (hr : reduce? qs a = some (p, qs')) {above below : List Draft}
    {d : Draft} (hsplit : t.drafts.drop p.body.length = above ++ d :: below) (hd : d.shared) :
    ∃ above' v below', (t.reduce p).values = above' ++ v :: below' ∧ below'.length = below.length ∧
      Shares ((t.drafts.take p.body.length ++ above).map Draft.tree) d.tree above' v := by
  have hdrafts : t.drafts = t.drafts.take p.body.length ++ above ++ d :: below := by
    rw [List.append_assoc, ← hsplit, List.take_append_drop]
  obtain ⟨above', v, below', hvalues, hlen, hshares⟩ := h.shares _ _ _ hdrafts hd
  by_cases hc : t.continues p
  · obtain ⟨parts, c, upper, w, lower, hdrafts', hvalues', hlen', hnew, _, hopen, hadd, hsub⟩ :=
      h.continued hr hc
    rw [hsplit, List.length_append, List.length_cons] at hlen'
    rcases append_eq_split (hvalues'.symm.trans hvalues) with ⟨mid, _, rfl⟩ | ⟨mid, rfl, hmid⟩
    · simp only [List.length_append, List.length_cons] at hlen
      omega
    · rcases List.append_eq_cons_iff.mp hmid.symm with ⟨rfl, hw⟩ | ⟨mid', rfl, rfl⟩
      · obtain ⟨rfl, rfl⟩ := List.cons.inj hw
        omega
      · refine ⟨upper ++ w.extend (t.addition p) :: mid', v, below', by rw [hnew]; simp, hlen,
          hshares.of_above rfl ?_⟩
        -- What is added to the parser's tree is there above it already.
        simp only [leavesAll_append, leavesAll_cons, leaves_extend_of_isOpen hopen, hadd, written_append]
        intro x hx
        have hx' := @hsub x
        simp only [List.mem_append] at hx ⊢
        tauto
  · exact ⟨above', v, below', by rw [values_reduce_of_not_continues hc, hvalues], hlen, hshares⟩

theorem reduce (h : Laid ss place qs t) (hr : reduce? qs a = some (p, qs')) :
    Laid ss place qs' (t.reduce p) := by
  obtain ⟨hvalues, hpast⟩ := h.standing_reduce hr
  obtain ⟨ss', hs, hst⟩ := h.drafts
  have hp := hs.splices (complete_of_reduce? hr)
  obtain ⟨rest, rfl, hs'⟩ := hs.reduce? hr
  refine ⟨h.sound.reduce hr, ⟨_, hs', by rw [drafts_reduce]; exact hst.reduce hp⟩,
    by rw [drafts_reduce]; exact h.pastDrafts.reduce hp hst.stands, hvalues, hpast,
    fun above d below hsplit hd => ?_⟩
  have hbuild : (build p ((t.drafts.take p.body.length).reverse.map Draft.tree)).leaves =
      leavesAll ((t.drafts.take p.body.length).map Draft.tree) := by
    rw [leaves_build (forall₂_drafts hst.fills), leavesAll, List.map_reverse]
  change _ :: t.drafts.drop p.body.length = _ at hsplit
  rcases List.append_eq_cons_iff.mp hsplit.symm with ⟨rfl, hd'⟩ | ⟨above', rfl, hrest⟩
  · obtain ⟨rfl, rfl⟩ := List.cons.inj hd'
    obtain ⟨parts, c, above', v, below', hdrafts, _, hlen, hnew, hshares, hopen, hadd, _⟩ :=
      h.continued hr hd
    refine ⟨above', _, below', hnew, hlen, hshares.continued hopen hadd ?_⟩
    have htake : t.drafts.take p.body.length ++ t.drafts.drop p.body.length =
        parts ++ [c] ++ t.drafts.drop p.body.length := by
      rw [List.take_append_drop, List.append_assoc]
      exact hdrafts
    rw [hbuild, List.append_cancel_right htake, List.map_append, leavesAll_append]
    simp [leavesAll]
  · obtain ⟨upper, v, below', hnew, hlen, hshares⟩ := h.shares_below hr hrest hd
    refine ⟨upper, v, below', hnew, hlen, hshares.of_above ?_ (List.subset_append_left _ _)⟩
    simp only [List.map_cons, List.map_append, leavesAll_cons, leavesAll_append, hbuild]

theorem of {p : Parser} (hsound : p.Sound) (hs : Spells p.states ss) (hst : Standing ss p.values)
    (hpast : Past place p.values) : Laid ss place p.states (Trial.of p) := by
  have htrees : (Trial.of p).drafts.map Draft.tree = p.values := by
    simp [Trial.of, Function.comp_def]
  refine ⟨.of hsound, ⟨ss, hs, by rwa [htrees]⟩, by rwa [htrees], hst, hpast, fun above d below hsplit _ => ?_⟩
  refine ⟨above.map Draft.tree, d.tree, below.map Draft.tree, ?_, by simp, .refl _ _⟩
  have hvalues := htrees
  rw [hsplit, List.map_append, List.map_cons] at hvalues
  exact hvalues.symm

theorem push (h : Laid ss place t.states t) {u : Terminal} {q : State} (hq : shift? (top t.states) u = some q) :
    Laid ss place (t.push q u place).states (t.push q u place) := by
  obtain ⟨ss', hs, hst⟩ := h.drafts
  have hlaid : Tree.Laid (.leaf (Token.missing u place) :: t.drafts.map Draft.tree) :=
    hst.laid.push h.pastDrafts fun hm => by cases hm
  refine ⟨h.sound.push hq place, ⟨_, hs.shift? hq, .cons (.finished rfl (.leaf _)) hst.stands, hlaid⟩,
    h.pastDrafts.push (Nat.le_refl _) (Nat.le_refl _), h.values, h.past, fun above d below hsplit hd => ?_⟩
  change _ :: t.drafts = _ at hsplit
  rcases List.append_eq_cons_iff.mp hsplit.symm with ⟨rfl, hd'⟩ | ⟨above', rfl, hrest⟩
  · obtain ⟨rfl, rfl⟩ := List.cons.inj hd'
    cases hd
  · obtain ⟨upper, v, below', hvalues, hlen, hshares⟩ := h.shares above' d below hrest hd
    refine ⟨upper, v, below', hvalues, hlen, hshares.of_above ?_ (List.subset_append_left _ _)⟩
    rw [List.map_cons, leavesAll_cons, written_append, leaves_leaf, written_missing, List.append_nil]

theorem settle (h : Laid ss place t.states t) (a : Lookahead) :
    Laid ss place (t.settle a).states (t.settle a) := by
  obtain ⟨ss', hs, _⟩ := h.sound.stands
  have hsettles := (hs.settles a).foldl (f := Trial.reduce) (M := Laid ss place) (fun hr h' => h'.reduce hr) h
  exact ⟨(h.sound.settle a).1, hsettles.drafts, hsettles.pastDrafts, hsettles.values, hsettles.past,
    hsettles.shares⟩

theorem play (h : Laid ss place t.states t) (as : List Terminal) :
    Standing ss (t.play place as).values ∧ Past place (t.play place as).values := by
  induction as generalizing t with
  | nil => exact ⟨h.values, h.past⟩
  | cons u as ih =>
      have hsettle := h.settle (.token u)
      cases hq : shift? (top (t.settle (.token u)).states) u with
      | none =>
          rw [play_cons_of_none hq]
          exact ⟨hsettle.values, hsettle.past⟩
      | some q =>
          rw [play_cons_of_some hq]
          exact ih (hsettle.push hq)

end Laid

end Trial

/-! ## The parser -/

/-- What the tree of a text can be: finished, or all that was recognised, side by side. -/
def Tree.Ordered (t : Tree) : Prop :=
  (Tight t ∧ InOrder (written t.leaves)) ∨ ∃ ss stack, Standing ss stack ∧ t = .node .file none stack.reverse

/-- Whether a token may come after a place. A made-up one has no extent. -/
structure Token.After (token : Token) (place : Position) : Prop where
  line : place.line ≤ token.start.line
  offset : place.offset ≤ token.start.offset
  lines : token.start.line ≤ token.stop.line
  offsets : token.start.offset ≤ token.stop.offset
  extent : token.isMissing = false → token.start.offset < token.stop.offset

theorem Token.after_missing (u : Terminal) (place : Position) : (Token.missing u place).After place :=
  ⟨Nat.le_refl _, Nat.le_refl _, Nat.le_refl _, Nat.le_refl _, fun h => by cases h⟩

namespace Parser

variable {p : Parser} {place : Position} {t : Terminal} {token : Token} {qs : List State}

/-- A parser whose trees lie in order and end before a place. -/
structure Laid (p : Parser) (place : Position) : Prop where
  stands : ∃ ss, Spells p.states ss ∧ Standing ss p.values
  past : Past place p.values
  before : ∀ x ∈ p.read, x.start.offset < place.offset

namespace Laid

theorem sound (h : p.Laid place) : p.Sound := by
  obtain ⟨ss, hs, hst⟩ := h.stands
  exact ⟨ss, hs, hst.fills⟩

theorem initial : Parser.initial.Laid place :=
  ⟨⟨[], .nil, .nil⟩, List.forall_mem_nil _, List.forall_mem_nil _⟩

theorem after (h : p.Laid place) (ht : token.After place) : p.Laid token.stop := by
  refine ⟨h.stands, fun s hs => ?_, fun x hx => ?_⟩
  · have hle := Nat.le_trans ht.line ht.lines
    exact ⟨Nat.le_trans (h.past s hs).1 hle, Nat.le_trans (h.past s hs).2 hle⟩
  · exact Nat.lt_of_lt_of_le (h.before x hx) (Nat.le_trans ht.offset ht.offsets)

theorem settle (h : p.Laid place) (a : Lookahead) : (p.settle a).Laid place := by
  obtain ⟨ss, hs, hst⟩ := h.stands
  have hsettles := (hs.settles a).foldl (f := Tree.reduce)
    (M := fun qs vs => (∃ ss, Spells qs ss ∧ Standing ss vs) ∧ Past place vs) ?_ ⟨⟨ss, hs, hst⟩, h.past⟩
  · refine ⟨hsettles.1, hsettles.2, fun x hx => h.before x ?_⟩
    rwa [h.sound.read_settle] at hx
  · rintro qs qs' r vs hr ⟨⟨ss, hs, hst⟩, hpast⟩
    have hp := hs.splices (complete_of_reduce? hr)
    obtain ⟨rest, rfl, hs'⟩ := hs.reduce? hr
    exact ⟨⟨_, hs', hst.reduce hp⟩, hpast.reduce hp hst.stands⟩

theorem feed (h : p.Laid place) (hf : feed? p.states t = some qs) (ht : token.After place) :
    (p.feed t token).2.Laid token.stop := by
  have hread := h.sound.read_feed hf token
  have hsettle := h.settle (.token t)
  obtain ⟨ss, hs, hst⟩ := hsettle.stands
  rw [feed_of_some hf] at hread ⊢
  obtain ⟨q, hq, rfl⟩ := feed?_eq_some.mp hf
  have hlaid : Tree.Laid (.leaf token :: (p.settle (.token t)).values) := by
    refine hst.laid.push (fun s hmem => ?_) fun _ x hx => ?_
    · obtain ⟨hstart, hstop⟩ := hsettle.past s hmem
      exact ⟨Nat.le_trans hstart ht.line, Nat.le_trans hstop (Nat.le_trans ht.line ht.lines)⟩
    · exact Nat.lt_of_lt_of_le (hsettle.before x hx) ht.offset
  refine ⟨⟨_, hs.shift? hq, .cons (.finished rfl (.leaf token)) hst.stands, hlaid⟩,
    hsettle.past.push ht.line ht.lines, fun x hx => ?_⟩
  rw [hread, List.mem_append] at hx
  rcases hx with hx | hx
  · exact (h.after ht).before x hx
  · obtain ⟨hx, hm⟩ := List.mem_filter.mp hx
    rw [List.mem_singleton.mp hx] at hm ⊢
    exact ht.extent (by simpa using hm)

theorem attempt (h : p.Laid place) (us : List Terminal) : (p.attempt place us).Laid place := by
  obtain ⟨ss, hs, hst⟩ := h.stands
  obtain ⟨hvalues, hpast⟩ := Trial.Laid.play (t := Trial.of p) (.of h.sound hs hst h.past) us
  refine ⟨⟨ss, hs, hvalues⟩, hpast, fun x hx => h.before x ?_⟩
  exact (h.sound.attempt place us).echoed.mem_iff.mp hx

theorem search (h : p.Laid place) (wanted : Option Terminal) : (p.search place wanted).Laid place := by
  unfold Parser.search
  induction Recovery.tried p.states wanted generalizing p with
  | nil => exact h
  | cons u us ih => exact ih (h.attempt (u :: wanted.toList))

theorem insert {m : Terminal} (h : p.Laid place) (hf : feed? p.states m = some qs) :
    (p.feed m (Token.missing m place)).2.Laid place :=
  h.feed hf (Token.after_missing m place)

theorem refused (h : p.Laid place) (t : Terminal) : (p.refused place t).Laid place :=
  (h.settle (.token t)).search (some t)

theorem advance (h : p.Laid place) (ht : token.After place) :
    (p.advance place token).2.Laid token.stop := by
  rcases p.advance_cases place token with ⟨_, ha⟩ | ⟨t, _, ⟨qs, hf, ha⟩ | ⟨_, _, ha⟩ | ⟨m, _, hi, ha⟩⟩
  · rw [ha]
    exact h.after ht
  · rw [ha]
    exact h.feed hf ht
  · rw [ha]
    exact (h.refused t).after ht
  · obtain ⟨qs₁, qs₂, hm, hf⟩ := feed?_refused place hi
    rw [ha]
    exact ((h.refused t).insert hm).feed hf ht

theorem run (h : p.Laid place) {us : List Token} (hus : ∀ u ∈ us, u.After place)
    (hpw : us.Pairwise fun a b => b.After a.stop) :
    (p.run place us).1.Laid (p.run place us).2.1 := by
  induction us generalizing p place with
  | nil => exact h
  | cons u us ih =>
      rw [List.pairwise_cons] at hpw
      exact ih (h.advance (hus u (by simp))) hpw.1 hpw.2

end Laid

theorem Laid.abandon (h : p.Laid place) : Ordered p.abandon.tree := by
  obtain ⟨ss, _, hst⟩ := h.stands
  exact .inr ⟨ss, p.values, hst, rfl⟩

theorem Laid.accept (h : p.Laid place) (ha : top p.states = accepting) : Ordered p.accept.tree := by
  obtain ⟨states, values⟩ := p
  obtain ⟨ss, hs, hst⟩ := h.stands
  obtain ⟨_, rfl⟩ := hs.eq_of_accepting ha
  obtain ⟨hstands, hlaid⟩ := hst
  cases hstands with
  | cons ht hnil =>
      cases hnil
      refine .inl ⟨?_, ?_⟩
      · cases ht with
        | finished _ ht => exact ht
        | unfinished hf => cases hf
      · simpa [leavesAll, Parser.accept] using hlaid.inOrder [_] [] rfl

theorem Laid.finish (h : p.Laid place) (n : Nat) : Ordered (Parser.finish place n p).tree := by
  induction n generalizing p with
  | zero => exact h.abandon
  | succ n ih =>
      by_cases ha : top (settled .finish p.states) = accepting
      · rw [finish_of_accepting n ha]
        exact (h.settle .finish).accept ha
      · have hsearch : (p.unfinished place).Laid place := (h.settle .finish).search none
        cases hi : insertion? (settled .finish p.states) none with
        | none =>
            rw [finish_of_none n ha hi]
            exact hsearch.abandon
        | some m =>
            obtain ⟨qs, hm⟩ := feed?_unfinished place hi
            rw [finish_of_some n ha hi]
            exact ih (hsearch.insert hm)

end Parser

theorem after_of_mem_tokenize {text : String} {token : Token} (h : token ∈ tokenize text) {place : Position}
    {cs : List Char} (hs : token.start = place.after cs) : token.After place := by
  have hstop := stop_of_mem_tokenize h
  have hm := isMissing_of_mem_tokenize h
  have hlen : 0 < token.text.toList.length := by
    rw [List.length_pos_iff]
    simpa [Token.isMissing] using hm
  refine ⟨hs ▸ place.line_le_after cs, ?_, hstop ▸ token.start.line_le_after _, ?_, fun _ => ?_⟩
  · rw [hs, Position.offset_after]
    omega
  · rw [hstop, Position.offset_after]
    omega
  · rw [hstop, Position.offset_after]
    omega

theorem after_start_of_mem_significant (text : String) :
    ∀ u ∈ significant (tokenize text), u.After Position.start := by
  intro u hu
  have hmem := List.mem_of_mem_filter hu
  obtain ⟨cs, hcs⟩ := Lexer.start_of_mem_place u hmem
  exact after_of_mem_tokenize hmem hcs

theorem pairwise_after_significant (text : String) :
    (significant (tokenize text)).Pairwise fun a b => b.After a.stop := by
  refine List.Pairwise.sublist List.filter_sublist ((pairwise_tokenize_after text).imp_of_mem ?_)
  rintro a b _ hb ⟨cs, hcs⟩
  exact after_of_mem_tokenize hb hcs

theorem ordered_parse (text : String) : (parse text).tree.Ordered :=
  (Parser.Laid.initial.run (after_start_of_mem_significant text) (pairwise_after_significant text)).finish
    Parser.completionLimit

end Typeahead
