import Typeahead.Proofs.Grammar.Pattern
import Typeahead.Proofs.Parser.Expectation
import Typeahead.Proofs.Parser.Outcome
import Typeahead.Proofs.Parser.Trees

/-!
What is accepted is in the grammar. The symbols on a stack generate the terminals that led to it, whether
they were read or inserted; so a text that is accepted is generated once it is mended as its issues say.
-/

namespace Typeahead

open Automaton Recovery Typeahead.Tree

variable {qs qs' : List State} {t m : Terminal} {w : List Terminal}

/-! ## Stacks -/

/-- The symbols that led to a stack generate some terminals. -/
def Yields (qs : List State) (w : List Terminal) : Prop :=
  ∃ ss, Spells qs ss ∧ GeneratesAll ss.reverse w

namespace Yields

theorem nil : Yields [] [] :=
  ⟨[], .nil, .nil⟩

theorem reduce? {a : Lookahead} {p : Production} (h : Yields qs w)
    (hr : reduce? qs a = some (p, qs')) : Yields qs' w := by
  obtain ⟨ss, hs, hw⟩ := h
  obtain ⟨rest, rfl, hs'⟩ := hs.reduce? hr
  rw [List.reverse_append, List.reverse_reverse] at hw
  obtain ⟨u, v, rfl, hu, hv⟩ := hw.of_append
  refine ⟨_, hs', ?_⟩
  rw [List.reverse_cons]
  exact hu.append (.single (generates_of_complete (row_mem hs.top_lt) (complete_of_reduce? hr) hv))

theorem settled (h : Yields qs w) (a : Lookahead) : Yields (settled a qs) w := by
  obtain ⟨ss, hs, hw⟩ := h
  exact (hs.settles a).preserves (M := (Yields · w)) (fun hr h => h.reduce? hr) ⟨ss, hs, hw⟩

theorem feed? (h : Yields qs w) (hf : feed? qs t = some qs') : Yields qs' (w ++ [t]) := by
  obtain ⟨q, hq, rfl⟩ := feed?_eq_some.mp hf
  obtain ⟨ss, hs, hw⟩ := h.settled (.token t)
  refine ⟨_, hs.shift? hq, ?_⟩
  rw [List.reverse_cons]
  exact hw.append (.single .t)

/-- A stack that ends in the end holds a file. -/
theorem of_accepting (h : Yields qs w) (ha : top qs = accepting) : Generates (.r .file) w := by
  obtain ⟨ss, hs, hw⟩ := h
  obtain ⟨_, rfl⟩ := hs.eq_of_accepting ha
  exact hw.of_single

end Yields

/-! ## Tokens -/

/-- The terminals that the parser is fed with for a token. -/
def fed (o : Token × Repair) : List Terminal :=
  match o.2 with
  | .taken => o.1.terminal?.toList
  | .inserted m => m :: o.1.terminal?.toList
  | .dropped => []

namespace Yields

variable {p : Parser} {place : Position}

theorem advance (h : Yields p.states w) (place : Position) (token : Token) :
    Yields (p.advance place token).2.states (w ++ fed (token, (p.advance place token).1)) := by
  rcases p.advance_cases place token with ⟨hk, ha⟩ | ⟨t, hk, ⟨qs, hf, ha⟩ | ⟨hf, _, ha⟩ | ⟨m, hf, hi, ha⟩⟩
  · rw [ha]
    simpa [fed] using h
  · rw [ha]
    simpa [fed, Token.terminal?, hk, hf] using h.feed? hf
  · rw [ha]
    simpa [fed] using h.settled (.token t)
  · obtain ⟨qs₁, qs₂, hm, ht⟩ := feed?_of_insertion? hi
    have hw := ((h.settled (.token t)).feed? hm).feed? ht
    rw [ha]
    simpa [fed, Token.terminal?, hk, hm, ht] using hw

theorem run (h : Yields p.states w) (place : Position) (us : List Token) :
    Yields (p.run place us).1.states (w ++ (p.outcomes place us).flatMap fed) := by
  induction us generalizing p place w with
  | nil => simpa [Parser.run, Parser.outcomes] using h
  | cons u us ih => simpa [Parser.run, Parser.outcomes] using ih (h.advance place u) u.stop

/-- A text that is accepted in the end is generated, with what was inserted to finish it. -/
theorem finish (h : Yields p.states w) (place : Position) (n : Nat)
    (ha : (Parser.finish place n p).accepted) :
    Generates (.r .file) (w ++ completion n p.states) := by
  induction n generalizing p w with
  | zero => cases ha
  | succ n ih =>
      by_cases htop : top (Automaton.settled .finish p.states) = accepting
      · have hnone : completion (n + 1) p.states = [] := by simp [completion, htop]
        rw [hnone, List.append_nil]
        exact (h.settled .finish).of_accepting htop
      · cases hi : insertion? (Automaton.settled .finish p.states) none with
        | none =>
            rw [Parser.finish_of_none n htop hi] at ha
            cases ha
        | some m =>
            obtain ⟨qs, hm, hc⟩ := completion_of_some (n := n) htop hi
            rw [Parser.finish_of_some n htop hi] at ha
            have hstates : ((p.unfinished place).feed m (Token.missing m place)).2.states = qs := by
              simp [hm]
            have hw := (h.settled .finish).feed? hm
            rw [← hstates] at hw
            have hg := ih hw ha
            rwa [hstates, List.append_assoc, List.singleton_append, ← hc] at hg

end Yields

/-! ## Mending a text as its issues say -/

/-- The terminal that an issue says is missing before a token. -/
def Issue.before? (token : Token) : Issue → Option Terminal
  | .missingBefore m token' => if token' = token then some m else none
  | _ => none

/-- The terminal that an issue says is missing at the end. -/
def Issue.atEnd? : Issue → Option Terminal
  | .missingAtEnd m _ => some m
  | _ => none

/-- A token unless it is unexpected, after what is missing before it. -/
def mendedToken (issues : List Issue) (token : Token) : List Terminal :=
  if .unexpected token ∈ issues then []
  else issues.filterMap (Issue.before? token) ++ token.terminal?.toList

/-- Some tokens, mended one by one, and what is missing at the end. -/
def mended (tokens : List Token) (issues : List Issue) : List Terminal :=
  tokens.flatMap (mendedToken issues) ++ issues.filterMap Issue.atEnd?

theorem before?_issuesOf_of_notMem {token : Token} {os : List (Token × Repair)}
    (h : token ∉ os.map Prod.fst) : (issuesOf os).filterMap (Issue.before? token) = [] := by
  rw [issuesOf, List.filterMap_filterMap, List.filterMap_eq_nil_iff]
  rintro ⟨token', repair⟩ ho
  have hne : token' ≠ token := by
    rintro rfl
    exact h (List.mem_map_of_mem (f := Prod.fst) ho)
  cases repair <;> simp [Parser.issue?, Issue.before?, hne]

/-- The issues say what is missing before a token that is not dropped. -/
theorem before?_issuesOf {os : List (Token × Repair)} (h : (os.map Prod.fst).Nodup)
    {o : Token × Repair} (ho : o ∈ os) (hd : o.2 ≠ .dropped) :
    (issuesOf os).filterMap (Issue.before? o.1) ++ o.1.terminal?.toList = fed o := by
  obtain ⟨front, back, rfl⟩ := List.append_of_mem ho
  rw [List.map_append, List.map_cons, List.nodup_middle, List.nodup_cons, List.mem_append, not_or] at h
  rw [← List.singleton_append (l := back), issuesOf_append, issuesOf_append, List.filterMap_append,
    List.filterMap_append, before?_issuesOf_of_notMem h.1.1, before?_issuesOf_of_notMem h.1.2,
    List.nil_append, List.append_nil]
  obtain ⟨token, repair⟩ := o
  cases repair with
  | taken => rfl
  | inserted m => simp [issuesOf, Parser.issue?, Issue.before?, fed]
  | dropped => exact absurd rfl hd

theorem atEnd?_issuesOf (os : List (Token × Repair)) : (issuesOf os).filterMap Issue.atEnd? = [] := by
  rw [issuesOf, List.filterMap_filterMap, List.filterMap_eq_nil_iff]
  rintro ⟨token, repair⟩ _
  cases repair <;> rfl

theorem mendedToken_eq_fed {os : List (Token × Repair)} (h : (os.map Prod.fst).Nodup)
    {o : Token × Repair} (ho : o ∈ os) (ms : List Terminal) (place : Position) :
    mendedToken (issuesOf os ++ ms.map (Issue.missingAtEnd · place)) o.1 = fed o := by
  have hmem : .unexpected o.1 ∈ issuesOf os ++ ms.map (Issue.missingAtEnd · place) ↔
      o.2 = .dropped := by
    rw [List.mem_append, unexpected_mem_issuesOf h ho]
    simp
  have hend : (ms.map (Issue.missingAtEnd · place)).filterMap (Issue.before? o.1) = [] := by
    simp [List.filterMap_map, Function.comp_def, Issue.before?]
  by_cases hd : o.2 = .dropped
  · rw [mendedToken, if_pos (hmem.mpr hd), fed, hd]
  · rw [mendedToken, if_neg (mt hmem.mp hd), List.filterMap_append, hend, List.append_nil,
      before?_issuesOf h ho hd]

/-- The tokens of a text, mended one by one, are what the parser was fed with before the end. -/
theorem flatMap_mendedToken (text : String) :
    (significant (tokenize text)).flatMap (mendedToken (parse text).issues) = (outcomesOf text).flatMap fed := by
  obtain ⟨place, hi⟩ := issues_parse text
  rw [hi, ← map_fst_outcomesOf, List.flatMap_map]
  exact List.flatMap_congr fun o ho => mendedToken_eq_fed (nodup_outcomesOf text) ho _ place

/-- The terminals that a text lacks at its end, as its issues say. -/
theorem atEnd?_parse (text : String) : (parse text).issues.filterMap Issue.atEnd? = completionOf text := by
  obtain ⟨place, hi⟩ := issues_parse text
  rw [hi, List.filterMap_append, atEnd?_issuesOf, List.nil_append]
  simp [List.filterMap_map, Function.comp_def, Issue.atEnd?]

/-- The text, mended as its issues say, is what the parser was fed with. -/
theorem mended_parse (text : String) :
    mended (significant (tokenize text)) (parse text).issues =
      (outcomesOf text).flatMap fed ++ completionOf text := by
  rw [mended, flatMap_mendedToken, atEnd?_parse]

/-! ## Texts without issues -/

namespace Parser

variable {p : Parser}

/-- Tokens that raise no issue are added as they come. -/
theorem Sound.leaves_run (h : p.Sound) (place : Position) {us : List Token}
    (hi : (p.run place us).2.2 = []) :
    (p.run place us).1.Sound ∧ (p.run place us).1.leaves = p.leaves ++ us := by
  induction us generalizing p place with
  | nil => exact ⟨h, (List.append_nil _).symm⟩
  | cons u us ih =>
      simp only [Parser.run, List.append_eq_nil_iff, Option.toList_eq_nil_iff, issue?_eq_none] at hi
      rcases p.advance_cases place u with ⟨_, ha⟩ | ⟨t, _, ⟨qs, hf, ha⟩ | ⟨_, _, ha⟩ | ⟨m, _, _, ha⟩⟩
      · rw [ha] at hi
        cases hi.1
      · obtain ⟨hs, hl⟩ := h.feed hf u
        rw [ha] at hi
        obtain ⟨hs', hl'⟩ := ih hs u.stop hi.2
        simp only [Parser.run, ha]
        exact ⟨hs', by rw [hl', hl, List.append_assoc, List.singleton_append]⟩
      · rw [ha] at hi
        cases hi.1
      · rw [ha] at hi
        cases hi.1

end Parser

/-- A text that nothing is inserted to finish is accepted. -/
theorem accepting_of_completion {ss : List Symbol} {n : Nat} (h : Spells qs ss)
    (hc : completion (n + 1) qs = []) : top (settled .finish qs) = accepting := by
  refine Classical.byContradiction fun htop => ?_
  obtain ⟨_, hs⟩ := h.settled .finish
  obtain ⟨t, ht⟩ := hs.exists_accepts htop
  obtain ⟨m, hi⟩ := exists_insertion? hs ht
  obtain ⟨_, _, hcons⟩ := completion_of_some (n := n) htop hi
  rw [hc] at hcons
  cases hcons

theorem Parser.Sound.finish_of_completion {p : Parser} {n : Nat} (h : p.Sound) (place : Position)
    (hc : completion (n + 1) p.states = []) :
    (Parser.finish place (n + 1) p).accepted ∧
    (Parser.finish place (n + 1) p).tree.leaves = p.leaves := by
  have hsettle := h.settle .finish
  obtain ⟨_, hs, _⟩ := h
  have htop := accepting_of_completion hs hc
  rw [Parser.finish_of_accepting n htop]
  exact ⟨rfl, (hsettle.1.leaves_accept htop).trans hsettle.2⟩

theorem kinds_of_run_eq_nil {p : Parser} {place : Position} {us : List Token}
    (h : (p.run place us).2.2 = []) :
    us.map Token.kind = (us.filterMap Token.terminal?).map .terminal := by
  have hterminal : ∀ u ∈ us, u.terminal?.map Token.Kind.terminal = some u.kind := by
    intro u hu
    obtain ⟨front, back, rfl⟩ := List.append_of_mem hu
    obtain ⟨t, hk⟩ := Parser.kind_of_issue?_eq_none (Parser.issue?_of_run_eq_nil h)
    simp [Token.terminal?, hk]
  rw [List.map_filterMap, List.filterMap_congr hterminal, List.filterMap_eq_map']

theorem mended_nil (tokens : List Token) : mended tokens [] = tokens.filterMap Token.terminal? := by
  rw [mended, List.filterMap_nil, List.append_nil, List.filterMap_eq_flatMap_toList]
  exact List.flatMap_congr fun token _ => by simp [mendedToken]

theorem generates_of_accepted (text : String) (h : (parse text).accepted) :
    Generates (.r .file) (mended (significant (tokenize text)) (parse text).issues) := by
  have hrun := Yields.run (p := Parser.initial) Yields.nil Position.start (significant (tokenize text))
  rw [mended_parse]
  exact hrun.finish _ Parser.completionLimit h

/-- A text that is accepted is generated by the grammar once it is mended as its issues say. A text without
issues is accepted and generated as it is, and its tree has its tokens and no others. -/
theorem mended_generated (text : String) :
    ((parse text).accepted →
      Generates (.r .file) (mended (significant (tokenize text)) (parse text).issues)) ∧
    ((parse text).issues = [] →
      (∃ ts, (significant (tokenize text)).map Token.kind = ts.map .terminal ∧
        Generates (.r .file) ts) ∧
      (parse text).tree.leaves = significant (tokenize text)) := by
  refine ⟨generates_of_accepted text, fun hi => ?_⟩
  obtain ⟨hrun, hfinish⟩ := List.append_eq_nil_iff.mp hi
  rw [Parser.issues_finish, List.map_eq_nil_iff] at hfinish
  obtain ⟨hs, hl⟩ := Parser.sound_initial.leaves_run Position.start hrun
  have hend := hs.finish_of_completion (n := 31)
    (Parser.initial.run Position.start (significant (tokenize text))).2.1 hfinish
  refine ⟨⟨_, kinds_of_run_eq_nil hrun, ?_⟩, hend.2.trans hl⟩
  have hg := generates_of_accepted text hend.1
  rwa [hi, mended_nil] at hg

/-- A function whose parameters are not closed, and a declaration that needs no mending. -/
theorem mended_generated_unclosed :
    (parse "fun f( {}").accepted ∧
    Generates (.r .file) [.kwFun, .name, .lpar, .rpar, .lbrace, .rbrace] ∧
    (parse "val x").issues = [] ∧
    (parse "val x").tree.leaves = significant (tokenize "val x") := by
  have haccepted : (parse "fun f( {}").accepted := by decide +kernel
  have hmended : mended (significant (tokenize "fun f( {}")) (parse "fun f( {}").issues =
      [.kwFun, .name, .lpar, .rpar, .lbrace, .rbrace] := by decide +kernel
  have hnone : (parse "val x").issues = [] := by decide +kernel
  refine ⟨haccepted, ?_, hnone, ((mended_generated "val x").2 hnone).2⟩
  rw [← hmended]
  exact (mended_generated "fun f( {}").1 haccepted

end Typeahead
