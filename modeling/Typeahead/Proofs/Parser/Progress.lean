import Typeahead.Proofs.Automaton.Notice
import Typeahead.Proofs.Parser.Derivation
import Typeahead.Proofs.Parser.Trial

/-!
The parser always gets on. Whatever tokens it has read, mended or dropped, it has not come to the end of a
file, so some terminal is taken next; and what a trial takes, the parser takes after it. Hence every text has
a tree, and only the limit on insertions can keep a text from being accepted.
-/

namespace Typeahead

open Automaton Recovery

variable {q : State} {qs qs' : List State} {ss : List Symbol} {a : Lookahead} {t m : Terminal}

/-! ## Stacks before the end of a file -/

namespace Automaton

theorem shift?_ne_accepting {q' : State} (h : shift? q t = some q') : q' ≠ accepting := by
  rintro rfl
  have hs := symbol_of_next? (s := .t t) h
  rw [symbol_accepting] at hs
  cases hs

/-- Only a file leads to the end. -/
theorem rule_of_reduce?_accepting {p : Production} (h : reduce? qs a = some (p, qs'))
    (ha : top qs' = accepting) : p.rule = .file := by
  obtain ⟨_, q, hq, rfl⟩ := reduce?_eq_some.mp h
  have hs := symbol_of_next? (s := .r p.rule) hq
  rw [top_cons] at ha
  rw [ha, symbol_accepting] at hs
  simpa using hs.symm

/-- No reduction that is due is left undone: its rule has somewhere to go, and the bound on reductions is
not what stops them. -/
theorem Spells.complete?_settled (h : Spells qs ss) (a : Lookahead) :
    complete? (top (Automaton.settled a qs)) a = none := by
  obtain ⟨_, h'⟩ := h.settled a
  cases hc : complete? (top (Automaton.settled a qs)) a with
  | none => rfl
  | some p =>
      obtain ⟨_, hr⟩ := h'.exists_reduce? hc
      rw [(h.settles a).reduce?_eq_none] at hr
      cases hr

/-- A stack that follows the automaton and has not come to the end of a file. -/
structure Underway (qs : List State) : Prop where
  spells : ∃ ss, Spells qs ss
  top_ne : top qs ≠ accepting

namespace Underway

theorem nil : Underway [] :=
  ⟨⟨_, .nil⟩, by decide⟩

/-- Reductions before a token do not lead to the end, as no token can follow a file. -/
theorem settled (h : Underway qs) (t : Terminal) : Underway (settled (.token t) qs) := by
  obtain ⟨_, hs⟩ := h.spells
  refine ⟨hs.settled _, (hs.settles (.token t)).preserves (M := (top · ≠ accepting)) ?_ h.top_ne⟩
  intro qs qs' p hr _ ha
  have hadmits := (complete?_eq_some.mp (reduce?_eq_some.mp hr).1).2.1
  rw [rule_of_reduce?_accepting hr ha] at hadmits
  cases hadmits

theorem feed? (h : Underway qs) (hf : feed? qs t = some qs') : Underway qs' := by
  obtain ⟨_, hs⟩ := h.spells
  refine ⟨hs.feed? hf, ?_⟩
  obtain ⟨q, hq, rfl⟩ := feed?_eq_some.mp hf
  exact shift?_ne_accepting hq

theorem exists_insertion? (h : Underway qs) : ∃ m, insertion? qs none = some m := by
  obtain ⟨_, hs⟩ := h.spells
  obtain ⟨t, ht⟩ := hs.exists_accepts h.top_ne
  exact Recovery.exists_insertion? hs ht

theorem expected_ne_nil (h : Underway qs) : expected qs ≠ [] := by
  obtain ⟨_, hs⟩ := h.spells
  obtain ⟨t, ht⟩ := hs.exists_accepts h.top_ne
  exact List.ne_nil_of_mem (mem_expected.mpr ht)

theorem advance (h : Underway qs) (t : Terminal) : Underway (Recovery.advance qs t).2 := by
  cases hf : Automaton.feed? qs t with
  | some qs₁ => simpa [Recovery.advance, hf] using h.feed? hf
  | none =>
      cases hi : insertion? (Automaton.settled (.token t) qs) (some t) with
      | none => simpa [Recovery.advance, hf, hi] using h.settled t
      | some m =>
          obtain ⟨qs₁, qs₂, hm, ht⟩ := feed?_of_insertion? hi
          simpa [Recovery.advance, hf, hi, hm, ht] using ((h.settled t).feed? hm).feed? ht

theorem run (h : Underway qs) (ts : List Terminal) : Underway (Recovery.run qs ts) := by
  induction ts generalizing qs with
  | nil => exact h
  | cons t ts ih => exact ih (h.advance t)

/-- Where a text cannot end, something can be inserted. -/
theorem insertion?_finish (h : Underway qs) (ha : top (Automaton.settled .finish qs) ≠ accepting) :
    ∃ m qs', insertion? (Automaton.settled .finish qs) none = some m ∧
      Automaton.feed? (Automaton.settled .finish qs) m = some qs' ∧ Underway qs' := by
  obtain ⟨_, hs⟩ := h.spells
  have h' : Underway (Automaton.settled .finish qs) := ⟨hs.settled .finish, ha⟩
  obtain ⟨m, hi⟩ := h'.exists_insertion?
  obtain ⟨qs', hm⟩ := feed?_of_insertion?_none hi
  exact ⟨m, qs', hi, hm, h'.feed? hm⟩

end Underway

end Automaton

/-! ## Trials and the parser -/

namespace Trial

/-- Whether a trial takes some terminals one after another. -/
def takes (place : Position) : Trial → List Terminal → Bool
  | _, [] => true
  | t, a :: as =>
    match shift? (top (t.settle (.token a)).states) a with
    | none => false
    | some q => takes place ((t.settle (.token a)).push q a place) as

/-- Trees decide nothing in a trial. -/
theorem takes_eq (place : Position) (t : Trial) (as : List Terminal) :
    t.takes place as = reads t.states as := by
  induction as generalizing t with
  | nil => rfl
  | cons a as ih =>
      have hstates : (t.settle (.token a)).states = settled (.token a) t.states := rfl
      cases hq : shift? (top (settled (.token a) t.states)) a with
      | none => simp [takes, reads, feed?, hstates, hq]
      | some q => simp [takes, reads, feed?, hstates, hq, ih, push]

theorem states_play {t : Trial} {as : List Terminal} (place : Position)
    (h : feedAll? t.states as = some qs) : (t.play place as).states = qs := by
  induction as generalizing t with
  | nil => simpa [play] using h
  | cons a as ih =>
      obtain ⟨qs₁, ha, has⟩ := Option.bind_eq_some_iff.mp h
      obtain ⟨q, hq, rfl⟩ := feed?_eq_some.mp ha
      rw [play_cons_of_some hq]
      exact ih has

end Trial

namespace Parser

variable {p : Parser} {place : Position} {token : Token} {wanted : Option Terminal}

theorem feed_fst (p : Parser) (t : Terminal) (token : Token) : (p.feed t token).1 = accepts p.states t := by
  cases h : feed? p.states t with
  | none => rw [feed_of_none h, accepts, h]; rfl
  | some qs => rw [feed_of_some h, accepts, h]; rfl

theorem reads_of_fits (h : fits qs wanted m) : reads qs (m :: wanted.toList) := by
  cases wanted with
  | none => rwa [Option.toList_none, reads_single, ← fits_none]
  | some t =>
      obtain ⟨qs', hm, ht⟩ := fits_some.mp h
      rwa [Option.toList_some, reads_cons_of_some hm, reads_single]

/-- What a search finds, the trial of it took; and the parser comes to the states of the trial when it takes
it in turn, and then what it was wanted for. -/
theorem feed_of_insert {p' : Parser} (h : (p.insert place wanted).1 = some m)
    (hp : p'.states = p.states) :
    (Trial.of p').takes place (m :: wanted.toList) ∧
    (p.search place wanted).feed m (Token.missing m place) = (true, (p.insert place wanted).2) ∧
    (p.insert place wanted).2.states = ((Trial.of p').play place [m]).states ∧
    ∀ t ∈ wanted, ∀ token,
      ((p.insert place wanted).2.feed t token).1 = true ∧
      ((p.insert place wanted).2.feed t token).2.states = ((Trial.of p').play place [m, t]).states := by
  have htrial : (Trial.of p').states = p.states := hp
  cases hi : insertion? p.states wanted with
  | none =>
      rw [insert_of_none hi] at h
      cases h
  | some m' =>
      rw [insert_of_some hi] at h ⊢
      cases h
      have hfits := fits_of_insertion? hi
      obtain ⟨qs₁, hm⟩ := Option.isSome_iff_exists.mp (accepts_of_fits hfits)
      have hstates : ((p.search place wanted).feed m (Token.missing m place)).2.states = qs₁ := by
        rw [feed_states, search_states, hm]
        rfl
      refine ⟨?_, Prod.ext ?_ rfl, ?_, ?_⟩
      · rw [Trial.takes_eq, htrial]
        exact reads_of_fits hfits
      · rw [feed_fst, search_states]
        exact accepts_of_fits hfits
      · have hplay : feedAll? (Trial.of p').states [m] = some qs₁ := by simp [htrial, hm]
        rw [hstates, Trial.states_play place hplay]
      · rintro t rfl token
        obtain ⟨_, hm', ht⟩ := fits_some.mp hfits
        cases hm.symm.trans hm'
        obtain ⟨qs₂, ht'⟩ := Option.isSome_iff_exists.mp ht
        have hplay : feedAll? (Trial.of p').states [m, t] = some qs₂ := by simp [htrial, hm, ht']
        refine ⟨by rw [feed_fst, hstates, ht], ?_⟩
        rw [feed_states, hstates, ht', Trial.states_play place hplay]
        rfl

end Parser

/-- Where a text cannot end yet, something is inserted. -/
theorem Automaton.Underway.insert_finish {p : Parser} {place : Position} (h : Underway p.states)
    (ha : top (p.settle .finish).states ≠ accepting) :
    ∃ m, ((p.settle .finish).insert place none).1 = some m ∧
      Underway ((p.settle .finish).insert place none).2.states := by
  rw [Parser.settle_states] at ha
  obtain ⟨m, qs', hi, hm, h'⟩ := h.insertion?_finish ha
  have hi' : insertion? (p.settle .finish).states none = some m := by rwa [Parser.settle_states]
  refine ⟨m, ?_, ?_⟩ <;> rw [Parser.insert_of_some hi']
  rw [Parser.feed_states, Parser.search_states, Parser.settle_states, hm]
  exact h'

/-! ## Parsers that tokens lead to -/

/-- The parsers that are reached while texts are read and finished, each with the place where a missing token
would stand. -/
inductive Reached : Parser → Position → Prop
  | initial : Reached .initial .start
  /-- A token makes reductions before it is taken or refused. -/
  | settle {p : Parser} {place : Position} (t : Terminal) :
      Reached p place → Reached (p.settle (.token t)) place
  /-- A token is taken as it is, or after another one, or dropped. -/
  | advance {p : Parser} {place : Position} (token : Token) :
      Reached p place → Reached (p.advance place token).2 token.stop
  /-- A terminal is inserted at the end of a text that cannot end yet. -/
  | insert {p : Parser} {place : Position} :
      Reached p place → top (p.settle .finish).states ≠ accepting →
      Reached ((p.settle .finish).insert place none).2 place

namespace Reached

variable {p : Parser} {place : Position}

theorem underway (h : Reached p place) : Underway p.states := by
  induction h with
  | initial => exact .nil
  | settle t _ ih => exact ih.settled t
  | @advance p place token _ ih =>
      cases hk : token.kind with
      | unlexable => rwa [Parser.advance_of_unlexable hk]
      | terminal t =>
          rw [(p.advance_eq place hk).2]
          exact ih.advance t
  | insert _ ha ih =>
      obtain ⟨_, _, h'⟩ := ih.insert_finish ha
      exact h'

theorem exists_insert (h : Reached p place) : ∃ m, (p.insert place none).1 = some m := by
  obtain ⟨m, hi⟩ := h.underway.exists_insertion?
  exact ⟨m, by rw [Parser.insert_of_some hi]⟩

theorem run (h : Reached p place) (us : List Token) :
    Reached (p.run place us).1 (p.run place us).2.1 := by
  induction us generalizing p place with
  | nil => exact h
  | cons u us ih => exact ih (h.advance u)

end Reached

theorem readAll_reached (tokens : List Token) : Reached (readAll tokens).1 (readAll tokens).2 :=
  Reached.initial.run (significant tokens)

theorem expectedAfter_ne_nil (tokens : List Token) : expectedAfter tokens ≠ [] :=
  (Underway.nil.run _).expected_ne_nil

/-! ## The end of a text -/

namespace Parser

variable {p : Parser} {place : Position}

/-- The last reduction of an accepted text makes the tree of a file. -/
theorem isNode_accept (h : Underway p.states) (ha : top (settled .finish p.states) = accepting) :
    (p.settle .finish).accept.tree.isNode .file := by
  obtain ⟨_, hs⟩ := h.spells
  have hlast := (hs.settles .finish).foldl (f := Tree.reduce) (x := p.values)
    (M := fun qs vs => top qs = accepting → ∃ v rest, vs = v :: rest ∧ v.isNode .file)
    (fun {_ _ r vs} hr _ ha => ⟨_, _, rfl, by
      simp [Tree.build, rule_of_reduce?_accepting hr ha, Rule.collapses, Tree.isNode]⟩)
    (fun ha => absurd ha h.top_ne)
  obtain ⟨v, rest, hv, hnode⟩ := hlast ha
  have hvalues : (p.settle .finish).values = v :: rest := hv
  rwa [accept, hvalues]

/-- Every ending has the tree of a file, and only the limit keeps a text from being accepted. -/
theorem finish_of_underway (h : Underway p.states) (place : Position) (n : Nat) :
    (finish place n p).tree.isNode .file ∧
    ((finish place n p).accepted ∨ (completion n p.states).length = n) := by
  induction n generalizing p with
  | zero => exact ⟨rfl, .inr rfl⟩
  | succ n ih =>
      by_cases ha : top (settled .finish p.states) = accepting
      · rw [finish_of_accepting n ha]
        exact ⟨isNode_accept h ha, .inl rfl⟩
      · obtain ⟨m, qs', hi, hm, h'⟩ := h.insertion?_finish ha
        obtain ⟨qs'', hm', hc⟩ := completion_of_some (n := n) ha hi
        rw [hm] at hm'
        cases hm'
        have hstates : ((p.unfinished place).feed m (Token.missing m place)).2.states = qs' := by
          simp [hm]
        rw [← hstates] at h'
        obtain ⟨hnode, hend⟩ := ih h'
        rw [finish_of_some n ha hi, hc]
        refine ⟨hnode, hend.imp id fun hlen => ?_⟩
        rw [hstates] at hlen
        simp [hlen]

end Parser

theorem Terminal.nodup_all : Terminal.all.Nodup := by decide

theorem finish_parse (text : String) :
    (parse text).tree.isNode .file ∧
    ((parse text).accepted ∨ (completionOf text).length = Parser.completionLimit) :=
  Parser.finish_of_underway (Reached.initial.run (significant (tokenize text))).underway _ _

/-- There are no dead ends. After any tokens some terminals are expected, listed once each and in grammar order;
from every parser that can be reached a terminal can be inserted, also at the end of a text that cannot end
yet; so a text that is not accepted has used up all the insertions allowed. -/
theorem no_dead_ends :
    (∀ (tokens : List Token) (last : Int),
      expectedTerminals tokens last ≠ [] ∧ (expectedTerminals tokens last).Nodup ∧
      (expectedTerminals tokens last).Sublist Terminal.all ∧
      ∀ t ∈ expectedTerminals tokens last, t.label ≠ "$END") ∧
    (∀ p place, Reached p place →
      (∃ m, (p.insert place none).1 = some m) ∧
      (top (p.settle .finish).states ≠ accepting →
        ∃ m, ((p.settle .finish).insert place none).1 = some m)) ∧
    ∀ text, (parse text).accepted ∨
      ((parse text).issues.filterMap Issue.atEnd?).length = Parser.completionLimit := by
  refine ⟨fun tokens last => ⟨expectedAfter_ne_nil _, ?_, List.filter_sublist, fun t _ => ?_⟩,
    fun p place h => ⟨h.exists_insert, fun ha => ?_⟩, fun text => ?_⟩
  · exact List.filter_sublist.nodup Terminal.nodup_all
  · cases t <;> decide
  · obtain ⟨m, hm, _⟩ := h.underway.insert_finish ha
    exact ⟨m, hm⟩
  · rw [atEnd?_parse]
    exact (finish_parse text).2

/-- A declaration without a name cannot end yet. -/
theorem no_dead_ends_after_val :
    let (p, place) := readAll (tokenize "val")
    Reached p place ∧ top (p.settle .finish).states ≠ accepting ∧
    (∃ m, (p.insert place none).1 = some m) ∧
    ∃ m, ((p.settle .finish).insert place none).1 = some m := by
  have hreached := readAll_reached (tokenize "val")
  have hend : top ((readAll (tokenize "val")).1.settle .finish).states ≠ accepting := by decide +kernel
  obtain ⟨hinsert, hfinish⟩ := no_dead_ends.2.1 _ _ hreached
  exact ⟨hreached, hend, hinsert, hfinish hend⟩

/-- Nothing can go wrong while a text is parsed. Every text has the tree of a file; in every parser that can be
reached, all reductions that are due before a token or the end are made; and whatever a search finds to insert
was taken by its trial, is then taken by the parser itself, and so is the token it was wanted for. -/
theorem parse_never_stuck :
    (∀ text, (parse text).tree.isNode .file) ∧
    (∀ p place, Reached p place → ∀ a, complete? (top (p.settle a).states) a = none) ∧
    ∀ (p p' : Parser) (place : Position) (wanted : Option Terminal) (m : Terminal),
      (p.insert place wanted).1 = some m → p'.states = p.states →
      (Trial.of p').takes place (m :: wanted.toList) ∧
      (p.search place wanted).feed m (Token.missing m place) = (true, (p.insert place wanted).2) ∧
      (p.insert place wanted).2.states = ((Trial.of p').play place [m]).states ∧
      ∀ t ∈ wanted, ∀ token,
        ((p.insert place wanted).2.feed t token).1 = true ∧
        ((p.insert place wanted).2.feed t token).2.states = ((Trial.of p').play place [m, t]).states := by
  refine ⟨fun text => (finish_parse text).1, fun p place h a => ?_, fun p p' place wanted m hm hp =>
    Parser.feed_of_insert hm hp⟩
  obtain ⟨_, hs⟩ := h.underway.spells
  exact hs.complete?_settled a

/-- Parameters that are not closed before a body. -/
theorem parse_never_stuck_unclosed :
    let (q, place) := readAll (tokenize "fun f(")
    let p := q.settle (.token .lbrace)
    Reached p place ∧ (p.insert place (some .lbrace)).1 = some .rpar ∧
    complete? (top (p.settle .finish).states) .finish = none ∧
    ∀ token, ((p.insert place (some .lbrace)).2.feed .lbrace token).1 = true := by
  obtain ⟨_, settled, taken⟩ := parse_never_stuck
  have hreached := (readAll_reached (tokenize "fun f(")).settle .lbrace
  have hfound : (((readAll (tokenize "fun f(")).1.settle (.token .lbrace)).insert
      (readAll (tokenize "fun f(")).2 (some .lbrace)).1 = some .rpar := by decide +kernel
  exact ⟨hreached, hfound, settled _ _ hreached .finish,
    fun token => ((taken _ _ _ _ _ hfound rfl).2.2.2 .lbrace rfl token).1⟩

end Typeahead
