import Typeahead.Proofs.Automaton.Notice
import Typeahead.Proofs.Parser.Expectation

/-!
Dropped tokens. A refused token leaves the reductions that were made before it was refused. These go
unnoticed exactly if each of them was made in a state that could have shifted nothing: then whatever
follows is mended as if the token had not been there.
-/

namespace Typeahead

open Automaton Recovery

variable {qs qs' : List State} {ss : List Symbol} {t u : Terminal}

/-! ## A forced reduction is not noticed -/

/-- All terminals in the order in which they are tried. -/
def insertionOrder : List Terminal :=
  preferred ++ Terminal.all.filter (!preferred.contains ·)

/-- What can be inserted is offered, so the search need not look at the offers. -/
theorem insertion?_eq (h : Spells qs ss) (wanted : Option Terminal) :
    insertion? qs wanted = insertionOrder.find? (fits qs wanted) := by
  have hoffers (m : Terminal) : (offers (top qs) (.token m) && fits qs wanted m) = fits qs wanted m := by
    cases hf : fits qs wanted m with
    | false => simp
    | true => simp [h.offers_of_accepts (accepts_of_fits hf)]
  have hrest (m : Terminal) :
      (offers (top qs) (.token m) && !preferred.contains m && fits qs wanted m) =
        (!preferred.contains m && fits qs wanted m) := by
    rw [Bool.and_right_comm, hoffers, Bool.and_comm]
  simp only [insertion?, candidates, insertionOrder, List.find?_append, List.find?_filter,
    Bool.decide_and, Bool.decide_eq_true, hoffers, hrest]

/-- Two stacks of which the second is the first, or the first after a forced reduction. -/
def Near (qs qs' : List State) : Prop :=
  qs = qs' ∨ (∃ ss, Spells qs ss) ∧ Forced qs qs'

theorem Near.feed?_eq (h : Near qs qs') (t : Terminal) : feed? qs t = feed? qs' t := by
  rcases h with rfl | ⟨⟨_, hs⟩, hf⟩
  · rfl
  · exact hf.feed?_eq hs t

theorem Near.fits_eq (h : Near qs qs') (wanted : Option Terminal) : fits qs wanted = fits qs' wanted := by
  funext m
  simp only [fits, h.feed?_eq]

theorem Near.insertion?_eq (h : Near qs qs') (wanted : Option Terminal) :
    insertion? qs wanted = insertion? qs' wanted := by
  rcases h with rfl | ⟨⟨_, hs⟩, hf⟩
  · rfl
  · obtain ⟨⟨_, hs'⟩, _⟩ := hf.cases hs
    rw [Typeahead.insertion?_eq hs, Typeahead.insertion?_eq hs', Near.fits_eq (.inr ⟨⟨_, hs⟩, hf⟩)]

theorem Near.settled (h : Near qs qs') (a : Lookahead) : Near (settled a qs) (settled a qs') := by
  rcases h with rfl | ⟨⟨_, hs⟩, hf⟩
  · exact .inl rfl
  · obtain ⟨⟨_, hs'⟩, hc⟩ := hf.cases hs
    rcases hc a with ⟨p, hr⟩ | ⟨ho, ho'⟩
    · exact .inl (hs.settled_of_reduce? hr)
    · rw [hs.settled_of_not_offers ho, hs'.settled_of_not_offers ho']
      exact .inr ⟨⟨_, hs⟩, hf⟩

theorem Near.advance (h : Near qs qs') (t : Terminal) :
    (Recovery.advance qs t).1 = (Recovery.advance qs' t).1 ∧
    Near (Recovery.advance qs t).2 (Recovery.advance qs' t).2 := by
  have hn := h.settled (.token t)
  cases hf : feed? qs' t with
  | some qs₁ => simp [Recovery.advance, h.feed?_eq, hf, Near]
  | none =>
      cases hi : insertion? (Automaton.settled (.token t) qs') (some t) with
      | none => simpa [Recovery.advance, h.feed?_eq, hf, hn.insertion?_eq, hi] using hn
      | some m =>
          obtain ⟨qs₁, qs₂, hm, ht⟩ := feed?_of_insertion? hi
          simp [Recovery.advance, h.feed?_eq, hf, hn.insertion?_eq, hi, hn.feed?_eq, hm, ht, Near]

namespace Near

variable {p p' : Parser}

theorem parser_advance (h : Near p.states p'.states) (place place' : Position) (token : Token) :
    (p.advance place token).1 = (p'.advance place' token).1 ∧
    Near (p.advance place token).2.states (p'.advance place' token).2.states := by
  cases hk : token.kind with
  | unlexable => simpa [Parser.advance_of_unlexable hk] using h
  | terminal t =>
      obtain ⟨h₁, h₂⟩ := p.advance_eq place hk
      obtain ⟨h₁', h₂'⟩ := p'.advance_eq place' hk
      rw [h₁, h₂, h₁', h₂']
      exact h.advance t

theorem run (h : Near p.states p'.states) (place place' : Position) (us : List Token) :
    (p.run place us).2.2 = (p'.run place' us).2.2 ∧
    Near (p.run place us).1.states (p'.run place' us).1.states := by
  induction us generalizing p p' place place' with
  | nil => exact ⟨rfl, h⟩
  | cons u us ih =>
      obtain ⟨hr, hn⟩ := h.parser_advance place place' u
      obtain ⟨hi, hn⟩ := ih hn u.stop u.stop
      simp only [Parser.run, hr, hi, true_and]
      exact hn

/-- No forced reduction leads to the end or away from it. -/
theorem accepting_iff (h : Near qs qs') : top qs = accepting ↔ top qs' = accepting := by
  rcases h with rfl | ⟨⟨_, hs⟩, hn, p, q, hp, hq, rfl⟩
  · rfl
  · obtain ⟨rest, _, _, hrest, _⟩ := hs.of_complete hp
    have hs' : Spells (q :: qs.drop p.body.length) (.r p.rule :: rest) := .cons hq hrest
    constructor
    · intro ht
      rw [ht, complete_accepting] at hp
      cases hp
    · intro ht
      have hr := hs'.symbol_top
      rw [ht, symbol_accepting] at hr
      have hfile : p.rule = .file := by simpa using hr.symm
      exact absurd hn (hs.regular.shifts_of_file p hp hfile)

theorem completion (h : Near qs qs') (n : Nat) : completion n qs = completion n qs' := by
  induction n generalizing qs qs' with
  | zero => rfl
  | succ n ih =>
      have hn := h.settled .finish
      by_cases ha : top (Automaton.settled .finish qs) = accepting
      · simp [Recovery.completion, ha, hn.accepting_iff.mp ha]
      · have ha' := mt hn.accepting_iff.mpr ha
        cases hi : insertion? (Automaton.settled .finish qs) none with
        | none => simp [Recovery.completion, ha, ha', hi, ← hn.insertion?_eq]
        | some m =>
            obtain ⟨qs₁, hm, hc⟩ := completion_of_some (n := n) ha hi
            obtain ⟨qs₂, hm', hc'⟩ := completion_of_some (n := n) ha' ((hn.insertion?_eq none).symm.trans hi)
            rw [hn.feed?_eq, hm'] at hm
            cases hm
            rw [hc, hc']

end Near

/-! ## Parsers that mend alike -/

namespace Parser

variable {p p' p'' : Parser}

/-- What becomes of further tokens, none of them hidden: the issues that they raise, and what is inserted
at the end. -/
def repairs (p : Parser) (place : Position) (us : List Token) : List Issue × List Terminal :=
  let (p, place, issues) := p.run place us
  (issues, (finish place completionLimit p).issues.filterMap Issue.missing?)

theorem missing_finish (place : Position) (n : Nat) (p : Parser) :
    (finish place n p).issues.filterMap Issue.missing? = completion n p.states := by
  simp [issues_finish, List.filterMap_map, Function.comp_def, Issue.missing?]

/-- Two parsers that mend whatever follows in the same way. -/
def Alike (p p' : Parser) : Prop :=
  ∀ us place place', p.repairs place us = p'.repairs place' us

theorem Alike.symm (h : p.Alike p') : p'.Alike p :=
  fun us place place' => (h us place' place).symm

theorem Alike.trans (h : p.Alike p') (h' : p'.Alike p'') : p.Alike p'' :=
  fun us place place' => (h us place place).trans (h' us place place')

theorem Alike.of_near (h : Near p.states p'.states) : p.Alike p' := by
  intro us place place'
  obtain ⟨hi, hn⟩ := h.run place place' us
  simp only [repairs, hi, missing_finish, hn.completion]

theorem Alike.of_forced {a : Lookahead} {ps : List Production} (hs : Settles a qs ps qs')
    (h : Spells qs ss) (hf : ∀ q ∈ reducedIn a qs, (row q).shifts = []) (vs vs' : List Tree) :
    Alike ⟨qs, vs⟩ ⟨qs', vs'⟩ := by
  induction hs generalizing ss vs with
  | done _ => exact of_near (.inl rfl)
  | step hr _ ih =>
      obtain ⟨_, _, h'⟩ := h.reduce? hr
      rw [h.reducedIn_of_reduce? hr, List.forall_mem_cons] at hf
      have hnear : Near _ _ := .inr ⟨⟨_, h⟩, Forced.of_reduce? hr hf.1⟩
      exact (of_near hnear).trans (ih h' hf.2 vs)

/-- Tokens raise no issues exactly if their terminals are taken as they come. -/
theorem issues_run_eq_nil (p : Parser) (place : Position) {tokens : List Token} {ts : List Terminal}
    (h : tokens.map Token.kind = ts.map .terminal) :
    (p.run place tokens).2.2 = [] ↔ reads p.states ts := by
  induction tokens generalizing p place ts with
  | nil =>
      cases List.map_eq_nil_iff.mp h.symm
      simp [run, reads]
  | cons token tokens ih =>
      obtain ⟨t, ts, rfl, hk, hks⟩ := List.map_eq_cons_iff.mp h.symm
      simp only [run, List.append_eq_nil_iff, Option.toList_eq_nil_iff,
        p.issue?_advance_eq_none place hk.symm, ih _ _ hks.symm, (p.advance_eq place hk.symm).2]
      cases hf : feed? p.states t with
      | none => simp [accepts, reads, hf]
      | some qs => simp [accepts, reads, hf, Recovery.advance]

theorem reads_eq_of_repairs {place place' : Position}
    (h : ∀ us, p.repairs place (significant us) = p'.repairs place' (significant us))
    (ts : List Terminal) : reads p.states ts = reads p'.states ts := by
  let tokens := ts.map (Token.missing · Position.start)
  have hk : tokens.map Token.kind = ts.map .terminal := by
    simp [tokens, Token.missing, Function.comp_def]
  by_cases hv : ∀ t ∈ ts, t.hidden = false
  · have hs : significant tokens = tokens := by
      simpa [tokens, significant, Token.missing, Token.Kind.hidden] using hv
    have hi := congrArg Prod.fst (h tokens)
    rw [hs] at hi
    rw [Bool.eq_iff_iff, ← p.issues_run_eq_nil place hk, ← p'.issues_run_eq_nil place' hk]
    exact iff_of_eq (congrArg (· = []) hi)
  · rw [Bool.eq_false_iff.mpr (mt visible_of_reads hv), Bool.eq_false_iff.mpr (mt visible_of_reads hv)]

theorem Alike.expected_eq (h : p.Alike p') : expected p.states = expected p'.states := by
  have haccepts (t : Terminal) : accepts p.states t = accepts p'.states t := by
    rw [← reads_single, ← reads_single]
    exact reads_eq_of_repairs (fun us => h _ Position.start Position.start) [t]
  simp only [expected, funext haccepts]

end Parser

/-! ## Dropped tokens -/

theorem readAll_concat (ts : List Token) {token : Token} (h : token.kind.hidden = false) :
    readAll (ts ++ [token]) = (((readAll ts).1.advance (readAll ts).2 token).2, token.stop) := by
  have hs : significant [token] = [token] := by simp [significant, h]
  simp only [readAll, significant_append, hs, Parser.run_append, Parser.run]

/-- What becomes of the tokens after some others. -/
def repairsAfter (ts us : List Token) : List Issue × List Terminal :=
  let (p, place) := readAll ts
  p.repairs place (significant us)

/-- A dropped token goes unnoticed exactly if the reductions made before it was refused were all made in
states that could shift nothing. -/
theorem dropped_unnoticed_iff {ts : List Token} {token : Token} (hv : token.kind.hidden = false)
    (hd : ((readAll ts).1.advance (readAll ts).2 token).1 = .dropped) :
    (expectedAfter (ts ++ [token]) = expectedAfter ts ∧
      ∀ us, repairsAfter (ts ++ [token]) us = repairsAfter ts us) ↔
    ∀ t, token.kind = .terminal t → ∀ q ∈ reducedIn (.token t) (readAll ts).1.states,
      (row q).shifts = [] := by
  obtain ⟨_, h⟩ := readAll_spells ts
  simp only [repairsAfter, expectedAfter_eq, readAll_concat ts hv]
  rcases Parser.dropped_cases hd with ⟨hk, ha⟩ | ⟨t, hk, hf, ha⟩
  · rw [ha]
    constructor
    · intro _ t ht
      rw [hk] at ht
      cases ht
    · intro _
      exact ⟨rfl, fun us => Parser.Alike.of_near (.inl rfl) _ _ _⟩
  · constructor
    · rintro ⟨_, hr⟩ t' ht
      cases hk.symm.trans ht
      refine (h.settles (.token t)).forced_of_unnoticed h hf fun us => ?_
      rw [← ha]
      exact Parser.reads_eq_of_repairs hr us
    · intro hforced
      have hal := Parser.Alike.of_forced (h.settles (.token t)) h (hforced t hk)
        (readAll ts).1.values ((readAll ts).1.advance (readAll ts).2 token).2.values
      rw [← ha] at hal
      exact ⟨hal.symm.expected_eq, fun us => hal.symm _ _ _⟩

/-- After a block, the reduction before a stray parenthesis is forced. -/
theorem parenthesis_unnoticed_after_block :
    let ts := tokenize "fun f() {}"
    let token : Token := ⟨.terminal .rpar, ")", ⟨10, 1, 11⟩, ⟨11, 1, 12⟩⟩
    ((readAll ts).1.advance (readAll ts).2 token).1 = .dropped ∧
    expectedAfter (ts ++ [token]) = expectedAfter ts ∧
    ∀ us, repairsAfter (ts ++ [token]) us = repairsAfter ts us := by
  refine ⟨by decide +kernel, (dropped_unnoticed_iff (by decide) (by decide +kernel)).mpr ?_⟩
  intro t ht
  cases ht
  decide +kernel

/-- After a number, a stray parenthesis ends the expression: no operator is expected any more. -/
theorem parenthesis_noticed_after_number :
    let tokens := tokenize "val x = 1 )"
    (parse "val x = 1 )").issues = [.unexpected ⟨.terminal .rpar, ")", ⟨10, 1, 11⟩, ⟨11, 1, 12⟩⟩] ∧
    .add ∈ expectedTerminals tokens 7 ∧ .add ∉ expectedTerminals tokens 8 := by
  decide +kernel

end Typeahead
