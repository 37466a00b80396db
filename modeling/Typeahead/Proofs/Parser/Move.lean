import Typeahead.Proofs.Parser.Trial
import Typeahead.Proofs.Tree.Move

/-!
The parser and places. Places decide nothing: a parser whose trees are moved does the same with tokens that are
moved, trials and their leftovers included. So the tree of a text depends only on the kinds and the texts of its
tokens, once blank space, comments and the characters that begin nothing are left out.
-/

namespace Typeahead

open Automaton Recovery

variable {f : Position → Position}

/-! ## Trials -/

/-- A draft whose places are moved. -/
def Draft.move (f : Position → Position) (d : Draft) : Draft :=
  ⟨d.tree.move f, d.shared⟩

namespace Trial

/-- A trial whose places are moved. -/
def move (f : Position → Position) (t : Trial) : Trial :=
  ⟨t.states, t.drafts.map (Draft.move f), t.values.map (Tree.move f)⟩

theorem parts_move (t : Trial) (n : Nat) : (((t.move f).drafts.take n).reverse).map Draft.tree =
    (((t.drafts.take n).reverse).map Draft.tree).map (Tree.move f) := by
  simp [move, Draft.move, List.map_take, Function.comp_def]

theorem continues_move (t : Trial) (p : Production) : (t.move f).continues p = t.continues p := by
  rw [continues, continues, move, ← List.map_take, ← List.map_reverse, List.head?_map, Option.any_map]
  rfl

theorem addition_move (t : Trial) (p : Production) :
    (t.move f).addition p = (t.addition p).map (Tree.move f) := by
  rw [addition, addition, parts_move, ← List.map_tail, Tree.gather_move]

theorem modify_move (extra values : List Tree) (i : Nat) :
    (values.map (Tree.move f)).modify i (Tree.extend (extra.map (Tree.move f))) =
      (values.modify i (Tree.extend extra)).map (Tree.move f) := by
  induction values generalizing i with
  | nil => simp
  | cons t ts ih =>
      cases i with
      | zero => simp [Tree.move_extend]
      | succ i => simp [ih]

theorem values_reduce_move (t : Trial) (p : Production) :
    ((t.move f).reduce p).values = (t.reduce p).values.map (Tree.move f) := by
  by_cases hc : t.continues p
  · have hc' : (t.move f).continues p := by rwa [continues_move]
    rw [values_reduce_of_continues hc, values_reduce_of_continues hc', addition_move, ← modify_move]
    simp [move]
  · have hc' : ¬ (t.move f).continues p := by rwa [continues_move]
    rw [values_reduce_of_not_continues hc, values_reduce_of_not_continues hc']
    rfl

theorem reduce_move (t : Trial) (p : Production) : (t.move f).reduce p = (t.reduce p).move f := by
  have hdraft : (⟨Tree.build p (((t.move f).drafts.take p.body.length).reverse.map Draft.tree),
      (t.move f).continues p⟩ : Draft) =
      Draft.move f ⟨Tree.build p ((t.drafts.take p.body.length).reverse.map Draft.tree), t.continues p⟩ := by
    rw [parts_move, Tree.build_move, continues_move]
    rfl
  have hdrafts : ((t.move f).reduce p).drafts = (t.reduce p).drafts.map (Draft.move f) := by
    have hrest : (t.move f).drafts.drop p.body.length = (t.drafts.drop p.body.length).map (Draft.move f) := by
      rw [move, List.map_drop]
    exact congrArg₂ List.cons hdraft hrest
  exact congrArg₂ (Trial.mk t.states) hdrafts (values_reduce_move t p)

theorem settle_move (t : Trial) (a : Lookahead) : (t.move f).settle a = (t.settle a).move f := by
  have hfold : (reductions a t.states).foldl reduce (t.move f) = ((reductions a t.states).foldl reduce t).move f :=
    List.foldl_hom (move f) fun t p => reduce_move t p
  rw [settle, settle]
  change ({ (reductions a t.states).foldl reduce (t.move f) with states := settled a t.states } : Trial) = _
  rw [hfold]
  rfl

theorem play_move (place : Position) (t : Trial) (as : List Terminal) :
    (t.move f).play (f place) as = (t.play place as).move f := by
  induction as generalizing t with
  | nil => rfl
  | cons a as ih =>
      cases hq : shift? (top (t.settle (.token a)).states) a with
      | none =>
          rw [play_cons_of_none hq, play_cons_of_none (by rwa [settle_move]), settle_move]
      | some q =>
          have hpush : ((t.settle (.token a)).move f).push q a (f place) =
              ((t.settle (.token a)).push q a place).move f := by
            simp [push, move, Draft.move, Token.missing, Token.move]
          rw [play_cons_of_some hq, play_cons_of_some (by rwa [settle_move]), settle_move, hpush, ih]

end Trial

/-! ## The parser's steps -/

namespace Parser

/-- A parser whose places are moved. -/
def move (f : Position → Position) (p : Parser) : Parser :=
  ⟨p.states, p.values.map (Tree.move f)⟩

variable (p : Parser)

@[simp] theorem states_move : (p.move f).states = p.states := rfl

theorem settle_move (a : Lookahead) : (p.move f).settle a = (p.settle a).move f := by
  have hsettle (p : Parser) :
      p.settle a = ⟨settled a p.states, (reductions a p.states).foldl Tree.reduce p.values⟩ := rfl
  have hfold : (reductions a p.states).foldl Tree.reduce (p.move f).values =
      ((reductions a p.states).foldl Tree.reduce p.values).map (Tree.move f) :=
    List.foldl_hom (List.map (Tree.move f)) fun stack r => Tree.reduce_move stack r
  rw [hsettle, hsettle, states_move, hfold]
  rfl

theorem feed_move (t : Terminal) (token : Token) :
    (p.move f).feed t (token.move f) = Prod.map id (move f) (p.feed t token) := by
  cases hf : feed? p.states t with
  | none =>
      rw [feed_of_none hf, feed_of_none (p := p.move f) hf, settle_move]
      rfl
  | some qs =>
      rw [feed_of_some hf, feed_of_some (p := p.move f) hf, settle_move]
      simp [move]

theorem attempt_move (place : Position) (ts : List Terminal) :
    (p.move f).attempt (f place) ts = (p.attempt place ts).move f := by
  have htrial : Trial.of (p.move f) = (Trial.of p).move f := by
    simp [Trial.of, Trial.move, move, Draft.move, Function.comp_def]
  rw [attempt, attempt, htrial, Trial.play_move]
  rfl

theorem search_move (place : Position) (wanted : Option Terminal) :
    (p.move f).search (f place) wanted = (p.search place wanted).move f :=
  List.foldl_hom (move f) fun p t => attempt_move p place (t :: wanted.toList)

theorem insert_move (place : Position) (wanted : Option Terminal) :
    (p.move f).insert (f place) wanted = Prod.map id (move f) (p.insert place wanted) := by
  cases hi : insertion? p.states wanted with
  | none =>
      rw [insert_of_none hi, insert_of_none (p := p.move f) hi, search_move]
      rfl
  | some m =>
      have hfeed := feed_move (f := f) (p.search place wanted) m (Token.missing m place)
      rw [insert_of_some hi, insert_of_some (p := p.move f) hi, search_move]
      exact congrArg (fun r : Bool × Parser => (some m, r.2)) hfeed

theorem advance_move (place : Position) (token : Token) :
    (p.move f).advance (f place) (token.move f) = Prod.map id (move f) (p.advance place token) := by
  cases hk : token.kind with
  | unlexable =>
      have hk' : (token.move f).kind = .unlexable := hk
      rw [advance_of_unlexable hk, advance_of_unlexable hk']
      rfl
  | terminal t =>
      have hk' : (token.move f).kind = .terminal t := hk
      rw [advance, advance, hk, hk']
      dsimp only
      rw [feed_move]
      cases p.feed t token with
      | mk taken q =>
          cases taken with
          | true => rfl
          | false =>
              dsimp only [Prod.map, id]
              rw [insert_move]
              cases q.insert place (some t) with
              | mk inserted q =>
                  cases inserted with
                  | none => rfl
                  | some m =>
                      dsimp only [Prod.map, id]
                      rw [feed_move]
                      rfl

end Parser

/-! ## Runs -/

namespace Issue

/-- An issue whose place is moved. -/
def move (f : Position → Position) : Issue → Issue
  | .unexpected token => .unexpected (token.move f)
  | .missingBefore missing token => .missingBefore missing (token.move f)
  | .missingAtEnd missing place => .missingAtEnd missing (f place)

/-- Whether an issue is about a token that no terminal begins. -/
def aboutUnlexable : Issue → Bool
  | .unexpected token => token.kind == .unlexable
  | .missingBefore _ token => token.kind == .unlexable
  | .missingAtEnd _ _ => false

@[simp] theorem message_move (i : Issue) : (i.move f).message = i.message := by
  cases i <;> rfl

@[simp] theorem aboutUnlexable_move (i : Issue) : (i.move f).aboutUnlexable = i.aboutUnlexable := by
  cases i <;> rfl

end Issue

namespace Parser

/-- An ending whose places are moved. -/
def Ending.move (f : Position → Position) (ending : Ending) : Ending :=
  ⟨ending.tree.move f, ending.accepted, ending.issues.map (Issue.move f)⟩

variable (p : Parser)

theorem issue?_move (token : Token) (repair : Repair) :
    issue? (token.move f) repair = (issue? token repair).map (Issue.move f) := by
  cases repair <;> rfl

theorem run_move (place : Position) (tokens : List Token) :
    (p.move f).run (f place) (tokens.map (Token.move f)) =
      Prod.map (move f) (Prod.map f (List.map (Issue.move f))) (p.run place tokens) := by
  induction tokens generalizing p place with
  | nil => rfl
  | cons token tokens ih =>
      have hstop : (token.move f).stop = f token.stop := rfl
      rw [List.map_cons, run, run, advance_move]
      dsimp only [Prod.map, id]
      rw [hstop, ih, issue?_move]
      cases issue? token (p.advance place token).1 <;> rfl

theorem accept_move : (p.move f).accept = p.accept.move f := by
  cases hv : p.values <;> simp [accept, move, Ending.move, hv]

theorem abandon_move : (p.move f).abandon = p.abandon.move f := by
  simp [abandon, move, Ending.move]

theorem unfinished_move (place : Position) : (p.move f).unfinished (f place) = (p.unfinished place).move f := by
  rw [unfinished, unfinished, settle_move, search_move]

theorem finish_move (place : Position) (n : Nat) :
    finish (f place) n (p.move f) = (finish place n p).move f := by
  induction n generalizing p with
  | zero => exact p.abandon_move
  | succ n ih =>
      by_cases ha : top (settled .finish p.states) = accepting
      · rw [finish_of_accepting n ha, finish_of_accepting (p := p.move f) n ha, settle_move, accept_move]
      · cases hi : insertion? (settled .finish p.states) none with
        | none =>
            rw [finish_of_none n ha hi, finish_of_none (p := p.move f) n ha hi, unfinished_move, abandon_move]
        | some m =>
            have hfeed := feed_move (f := f) (p.unfinished place) m (Token.missing m place)
            have hnext : (((p.move f).unfinished (f place)).feed m (Token.missing m (f place))).2 =
                ((p.unfinished place).feed m (Token.missing m place)).2.move f := by
              rw [unfinished_move]
              exact congrArg Prod.snd hfeed
            rw [finish_of_some n ha hi, finish_of_some (p := p.move f) n ha hi, hnext, ih]
            rfl

theorem aboutUnlexable_issue? {token : Token} {t : Terminal} (h : token.kind = .terminal t) (repair : Repair) :
    (issue? token repair).toList.filter (!·.aboutUnlexable) = (issue? token repair).toList := by
  cases repair <;> simp [issue?, Issue.aboutUnlexable, h]

/-- Where all tokens stand at one place, those that no terminal begins leave nothing but their issues. -/
theorem run_lexable {place : Position} {tokens : List Token} (h : ∀ token ∈ tokens, token.stop = place) :
    p.run place (tokens.filter (·.kind ≠ .unlexable)) =
      ((p.run place tokens).1, (p.run place tokens).2.1, (p.run place tokens).2.2.filter (!·.aboutUnlexable)) := by
  induction tokens generalizing p with
  | nil => rfl
  | cons token tokens ih =>
      have hstop : token.stop = place := h token List.mem_cons_self
      replace ih := fun p => ih p fun token ht => h token (List.mem_cons_of_mem _ ht)
      cases hk : token.kind with
      | unlexable =>
          rw [List.filter_cons_of_neg (by simp [hk]), ih]
          simp [run, advance_of_unlexable hk, hstop, issue?, Issue.aboutUnlexable, hk]
      | terminal t =>
          rw [List.filter_cons_of_pos (by simp [hk])]
          dsimp only [run]
          rw [hstop, ih, List.filter_append, aboutUnlexable_issue? hk]

end Parser

/-! ## Texts -/

/-- What a text spells: the kinds and the texts of the tokens that the parser sees, without those that no terminal
begins. -/
def spelled (text : String) : List (Token.Kind × String) :=
  ((significant (tokenize text)).filter (·.kind ≠ .unlexable)).map fun token => (token.kind, token.text)

namespace Parser

/-- What comes of a text without its places. -/
def ofSpelling (spelling : List (Token.Kind × String)) : Ending :=
  let tokens := spelling.map fun lexeme => ⟨lexeme.1, lexeme.2, Position.start, Position.start⟩
  let (p, place, issues) := initial.run Position.start tokens
  let ending := finish place completionLimit p
  { ending with issues := issues ++ ending.issues }

theorem aboutUnlexable_finish (place : Position) (n : Nat) (p : Parser) :
    (finish place n p).issues.filter (!·.aboutUnlexable) = (finish place n p).issues := by
  simp [issues_finish, Issue.aboutUnlexable, List.filter_eq_self]

/-- Without its places, all that comes of a text comes of what it spells. -/
theorem ofSpelling_spelled (text : String) :
    ofSpelling (spelled text) =
      ⟨(parse text).tree.unplaced, (parse text).accepted,
        ((parse text).issues.filter (!·.aboutUnlexable)).map (Issue.move fun _ => Position.start)⟩ := by
  -- Once all places are the same, a token that no terminal begins does not even move the next missing token.
  let still : Position → Position := fun _ => Position.start
  have htokens : (spelled text).map (fun lexeme => ⟨lexeme.1, lexeme.2, Position.start, Position.start⟩) =
      ((significant (tokenize text)).map (Token.move still)).filter (·.kind ≠ .unlexable) := by
    rw [spelled, List.map_map, List.filter_map]
    rfl
  have hstop : ∀ token ∈ (significant (tokenize text)).map (Token.move still), token.stop = Position.start := by
    simp [Token.move, still]
  have hrun : initial.run Position.start ((significant (tokenize text)).map (Token.move still)) =
      Prod.map (move still) (Prod.map still (List.map (Issue.move still)))
        (initial.run Position.start (significant (tokenize text))) :=
    initial.run_move (f := still) Position.start _
  rw [ofSpelling, htokens, initial.run_lexable hstop, hrun, parse]
  rcases initial.run Position.start (significant (tokenize text)) with ⟨p, place, issues⟩
  have hfinish : finish (still place) completionLimit (p.move still) =
      (finish place completionLimit p).move still :=
    p.finish_move place completionLimit
  dsimp only [Prod.map]
  rw [hfinish, List.filter_append, aboutUnlexable_finish, List.map_append, List.filter_map]
  simp [Ending.move, Tree.unplaced, Function.comp_def, still]

end Parser

/-- Texts that spell the same are parsed to the same tree but for places, with the same messages but for those
about characters that begin nothing, and they declare and import the same names. -/
theorem parse_of_spelled_eq (text text' : String) (source source' : Option String) (h : spelled text = spelled text') :
    (parse text).tree.unplaced = (parse text').tree.unplaced ∧
    ((parse text).issues.filter (!·.aboutUnlexable)).map Issue.message =
      ((parse text').issues.filter (!·.aboutUnlexable)).map Issue.message ∧
    (SymbolTable.ofTree source (parse text).tree).map SymbolEntry.signature =
      (SymbolTable.ofTree source' (parse text').tree).map SymbolEntry.signature ∧
    (Import.ofTree (parse text).tree).map Import.name = (Import.ofTree (parse text').tree).map Import.name := by
  have hends := Parser.ofSpelling_spelled text
  rw [h, Parser.ofSpelling_spelled text', Parser.Ending.mk.injEq] at hends
  obtain ⟨htree, -, hissues⟩ := hends
  refine ⟨htree.symm, ?_, ?_, ?_⟩
  · have hmessages := congrArg (List.map Issue.message) hissues
    simpa [Function.comp_def] using hmessages.symm
  · calc
      _ = (SymbolTable.ofTree source (parse text).tree.unplaced).map SymbolEntry.signature :=
        (signatures_move source source _).symm
      _ = (SymbolTable.ofTree source (parse text').tree.unplaced).map SymbolEntry.signature := by rw [htree]
      _ = _ := signatures_move source source' _
  · calc
      _ = (Import.ofTree (parse text).tree.unplaced).map Import.name := (importNames_move _).symm
      _ = (Import.ofTree (parse text').tree.unplaced).map Import.name := by rw [htree]
      _ = _ := importNames_move _

/-- Two broken texts, one of them with comments and stray characters among its tokens. -/
theorem parse_of_spelled_eq_mended :
    let text := "import a.b val x = f(1 fun g(y Int) \x7b"
    let text' := "import a.b // of lib\nval x = # f(1\n\n@ fun g(y /* no colon */ Int) \x7b $"
    spelled text = spelled text' ∧
    (parse text).tree.unplaced = (parse text').tree.unplaced ∧
    ((parse text).issues.filter (!·.aboutUnlexable)).map Issue.message =
      ((parse text').issues.filter (!·.aboutUnlexable)).map Issue.message ∧
    (SymbolTable.ofTree none (parse text).tree).map SymbolEntry.signature =
      (SymbolTable.ofTree (some "a") (parse text').tree).map SymbolEntry.signature ∧
    (Import.ofTree (parse text).tree).map Import.name = (Import.ofTree (parse text').tree).map Import.name := by
  have h : spelled "import a.b val x = f(1 fun g(y Int) \x7b" =
      spelled "import a.b // of lib\nval x = # f(1\n\n@ fun g(y /* no colon */ Int) \x7b $" := by
    decide +kernel
  exact ⟨h, parse_of_spelled_eq _ _ none (some "a") h⟩

end Typeahead
