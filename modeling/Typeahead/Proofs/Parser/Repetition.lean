import Typeahead.Proofs.Parser.Outcome
import Typeahead.Proofs.Parser.Trial
import Typeahead.Proofs.Token.Order

/-!
Tokens that a tree repeats. The only thing that ever repeats a token is a search for a terminal to insert,
and what it repeats comes again later in the tree: the last occurrences of the tokens are always the tokens
that were kept, in the order of the text.
-/

namespace Typeahead

open Automaton Recovery Typeahead.Tree

/-! ## Searches -/

/-- The tokens of the text that a parser has in its trees. -/
def Parser.read (p : Parser) : List Token :=
  written p.leaves

/-- A search for a terminal to insert. -/
structure Search where
  parser : Parser
  place : Position
  wanted : Option Terminal

/-- A search that leaves no token of the text behind. -/
def Search.Idle (s : Search) : Prop :=
  (s.parser.search s.place s.wanted).read = s.parser.read

namespace Parser

/-- The search made before a token, if it is refused. -/
def searchesFor (p : Parser) (place : Position) (token : Token) : List Search :=
  match token.terminal? with
  | none => []
  | some t => if accepts p.states t then [] else [⟨p.settle (.token t), place, some t⟩]

/-- The searches made while some tokens are read. -/
def searches (p : Parser) (place : Position) : List Token → List Search
  | [] => []
  | token :: rest => p.searchesFor place token ++ (p.advance place token).2.searches token.stop rest

/-- The searches made to finish a text. -/
def finishSearches (place : Position) : Nat → Parser → List Search
  | 0, _ => []
  | n + 1, p =>
    if top (settled .finish p.states) = accepting then
      []
    else
      ⟨p.settle .finish, place, none⟩ ::
        match insertion? (settled .finish p.states) none with
        | none => []
        | some m => finishSearches place n ((p.unfinished place).feed m (Token.missing m place)).2

end Parser

/-- The searches made while a text is parsed. -/
def searches (text : String) : List Search :=
  let tokens := significant (tokenize text)
  let (p, place, _) := Parser.initial.run Position.start tokens
  Parser.initial.searches Position.start tokens ++ Parser.finishSearches place Parser.completionLimit p

/-- Some searches leave echoes in a list of tokens, unless they are all idle. -/
structure Repeats (ss : List Search) (xs ys : List Token) : Prop where
  echoed : Echoed xs ys
  idle_iff : (∀ s ∈ ss, s.Idle) ↔ ys = xs

namespace Repeats

variable {ss ss' : List Search} {xs ys zs : List Token}

theorem refl (xs : List Token) : Repeats [] xs xs :=
  ⟨.refl, by simp⟩

theorem append_right (h : Repeats ss xs ys) (zs : List Token) : Repeats ss (xs ++ zs) (ys ++ zs) :=
  ⟨h.echoed.append_right zs, by rw [h.idle_iff, List.append_left_inj]⟩

theorem trans (h : Repeats ss xs ys) (h' : Repeats ss' ys zs) : Repeats (ss ++ ss') xs zs := by
  refine ⟨h.echoed.trans h'.echoed, ?_⟩
  rw [List.forall_mem_append, h.idle_iff, h'.idle_iff]
  constructor
  · rintro ⟨rfl, rfl⟩
    rfl
  · rintro rfl
    have hy := h.echoed.eq_of_eq h'.echoed
    exact ⟨hy, hy.symm⟩

theorem search {p : Parser} (h : p.Sound) (place : Position) (wanted : Option Terminal) :
    Repeats [⟨p, place, wanted⟩] p.read (p.search place wanted).read :=
  ⟨(h.search place wanted).2.echoed, List.forall_mem_singleton⟩

end Repeats

/-! ## One token -/

namespace Parser

variable {p : Parser} {place : Position} {token : Token} {t : Terminal} {qs : List State}

theorem Sound.read_settle (h : p.Sound) (a : Lookahead) : (p.settle a).read = p.read :=
  congrArg written (h.settle a).2

theorem Sound.read_feed (h : p.Sound) (hf : feed? p.states t = some qs) (token : Token) :
    (p.feed t token).2.read = p.read ++ written [token] := by
  rw [read, (h.feed hf token).2, written_append]
  rfl

theorem searchesFor_of_none (hk : token.kind = .terminal t) (hf : feed? p.states t = none) :
    p.searchesFor place token = [⟨p.settle (.token t), place, some t⟩] := by
  simp [searchesFor, Token.terminal?, hk, accepts, hf]

theorem Sound.refused (h : p.Sound) (place : Position) (hk : token.kind = .terminal t)
    (hf : feed? p.states t = none) :
    (p.refused place t).Sound ∧
      Repeats (p.searchesFor place token) p.read (p.refused place t).read := by
  have hs := (h.settle (.token t)).1
  rw [searchesFor_of_none hk hf, ← h.read_settle (.token t)]
  exact ⟨(hs.search place (some t)).1, .search hs place (some t)⟩

/-- A token adds itself unless it is dropped, after what the search for a terminal to insert before it
may leave. -/
theorem Sound.advance (h : p.Sound) (place : Position) (hw : token.isMissing = false) :
    (p.advance place token).2.Sound ∧
    Repeats (p.searchesFor place token) (p.read ++ kept [(token, (p.advance place token).1)])
      (p.advance place token).2.read := by
  have hwritten : written [token] = [token] := by simp [written, hw]
  rcases p.advance_cases place token with ⟨hk, ha⟩ | ⟨t, hk, ⟨qs, hf, ha⟩ | ⟨hf, _, ha⟩ | ⟨m, hf, hi, ha⟩⟩
  · have hnone : p.searchesFor place token = [] := by simp [searchesFor, Token.terminal?, hk]
    rw [ha, hnone]
    refine ⟨h, ?_⟩
    simpa [kept] using Repeats.refl p.read
  · have hnone : p.searchesFor place token = [] := by
      simp [searchesFor, Token.terminal?, hk, accepts, hf]
    rw [ha, hnone]
    refine ⟨(h.feed hf token).1, ?_⟩
    rw [h.read_feed hf, hwritten]
    exact .refl _
  · rw [ha]
    obtain ⟨hs, hr⟩ := h.refused place hk hf
    exact ⟨hs, by simpa [kept] using hr⟩
  · obtain ⟨hs, hr⟩ := h.refused place hk hf
    obtain ⟨qs₁, qs₂, hm, ht⟩ := feed?_refused place hi
    have hm' := hs.feed hm (Token.missing m place)
    rw [ha]
    refine ⟨(hm'.1.feed ht token).1, ?_⟩
    rw [hm'.1.read_feed ht, hs.read_feed hm, written_missing, List.append_nil, hwritten]
    exact hr.append_right [token]

/-! ## Whole texts -/

theorem Sound.run (h : p.Sound) (place : Position) {us : List Token}
    (hw : ∀ u ∈ us, u.isMissing = false) :
    (p.run place us).1.Sound ∧
    Repeats (p.searches place us) (p.read ++ kept (p.outcomes place us)) (p.run place us).1.read := by
  induction us generalizing p place with
  | nil =>
      refine ⟨h, ?_⟩
      simpa [outcomes, kept, Parser.run, Parser.searches] using Repeats.refl p.read
  | cons u us ih =>
      rw [List.forall_mem_cons] at hw
      obtain ⟨hs, hr⟩ := h.advance place hw.1
      obtain ⟨hs', hr'⟩ := ih hs u.stop hw.2
      refine ⟨hs', ?_⟩
      have hkept : kept (p.outcomes place (u :: us)) = kept [(u, (p.advance place u).1)] ++
          kept ((p.advance place u).2.outcomes u.stop us) := by
        rw [← kept_append]
        rfl
      rw [hkept, ← List.append_assoc]
      exact (hr.append_right _).trans hr'

/-- To finish a text adds no token of it but what the searches may leave. -/
theorem Sound.finish (h : p.Sound) (place : Position) (n : Nat) :
    Repeats (finishSearches place n p) p.read (written (Parser.finish place n p).tree.leaves) := by
  induction n generalizing p with
  | zero =>
      rw [Parser.finish, leaves_abandon]
      exact .refl _
  | succ n ih =>
      have hsettle := h.settle .finish
      by_cases ha : top (settled .finish p.states) = accepting
      · have hnone : finishSearches place (n + 1) p = [] := by simp [finishSearches, ha]
        rw [finish_of_accepting n ha, hsettle.1.leaves_accept ha, hsettle.2, hnone]
        exact .refl _
      · have hsearch := Repeats.search hsettle.1 place none
        rw [h.read_settle] at hsearch
        cases hi : insertion? (settled .finish p.states) none with
        | none =>
            have hone : finishSearches place (n + 1) p = [⟨p.settle .finish, place, none⟩] := by
              simp [finishSearches, ha, hi]
            rw [finish_of_none n ha hi, leaves_abandon, hone]
            exact hsearch
        | some m =>
            obtain ⟨qs, hm⟩ := feed?_unfinished place hi
            have hs := (hsettle.1.search place none).1
            have hread := hs.read_feed hm (Token.missing m place)
            rw [written_missing, List.append_nil] at hread
            have hcons : finishSearches place (n + 1) p = [⟨p.settle .finish, place, none⟩] ++
                finishSearches place n ((p.unfinished place).feed m (Token.missing m place)).2 := by
              simp [finishSearches, ha, hi]
            rw [finish_of_some n ha hi, hcons]
            have hrest := ih (hs.feed hm (Token.missing m place)).1
            exact hsearch.trans (hread ▸ hrest)

end Parser

theorem repeats_parse (text : String) :
    Repeats (searches text) (kept (outcomesOf text)) (written (parse text).tree.leaves) := by
  have hw : ∀ u ∈ significant (tokenize text), u.isMissing = false := fun u hu =>
    isMissing_of_mem_tokenize (List.mem_of_mem_filter hu)
  obtain ⟨hs, hrun⟩ := Parser.sound_initial.run Position.start hw
  exact hrun.trans (hs.finish (Parser.initial.run Position.start (significant (tokenize text))).2.1
    Parser.completionLimit)

/-- The written tokens in the tree of a text are those that were kept. -/
theorem mem_written_leaves_parse {text : String} {token : Token} :
    token ∈ written (parse text).tree.leaves ↔ token ∈ kept (outcomesOf text) :=
  (repeats_parse text).echoed.mem_iff

/-- Without repetitions, the tree of a text has the tokens that were not dropped, each once and in order.
It repeats some exactly if a search for a terminal to insert leaves some behind. -/
theorem pairwise_leaves_parse_iff (text : String) :
    (written (parse text).tree.leaves).dedup =
      (significant (tokenize text)).filter (fun token => .unexpected token ∉ (parse text).issues) ∧
    ((written (parse text).tree.leaves).Pairwise (fun a b => a.start.offset < b.start.offset) ↔
      ∀ s ∈ searches text, s.Idle) := by
  have hrep := repeats_parse text
  rw [kept_outcomesOf] at hrep
  have horder := ((pairwise_tokenize text).filter (!·.kind.hidden)).filter
    fun token => decide (.unexpected token ∉ (parse text).issues)
  have hdedup := hrep.echoed.dedup_eq.trans (nodup_of_pairwise horder).dedup
  refine ⟨hdedup, ?_⟩
  rw [hrep.idle_iff]
  constructor
  · intro h
    rw [← (nodup_of_pairwise h).dedup]
    exact hdedup
  · intro h
    rw [h]
    exact horder

/-- Each terminal tried before the stray parenthesis leaves another copy of the last declaration. -/
theorem declaration_repeated_before_parenthesis :
    (written (parse "val a val b)").tree.leaves).map Token.text =
      ["val", "a", "val", "b", "val", "b", "val", "b", "val", "b", "val", "b"] ∧
    ¬ (written (parse "val a val b)").tree.leaves).Pairwise
      fun a b => a.start.offset < b.start.offset := by
  decide +kernel

end Typeahead
