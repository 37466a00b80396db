import Typeahead.Proofs.Cursor.Offset
import Typeahead.SymbolTable

/-!
Where the leaves of a tree come from. The parser and its trials only move trees about, so whatever holds of all tokens
that are fed to them, and of all that they make up, holds of all tokens in the tree. It follows that each leaf is a
token of the text, in all its fields, or was made up where some token ends; and that a declared name is found in the
text where its entry says.
-/

namespace Typeahead

open Automaton Recovery Typeahead.Tree

variable {P : Token → Prop}

/-! ## Trees -/

namespace Tree

/-- Whether all tokens in some trees have a property. -/
def AllLeaves (P : Token → Prop) (ts : List Tree) : Prop :=
  ∀ t ∈ ts, ∀ token ∈ t.leaves, P token

namespace AllLeaves

variable {ts extra : List Tree}

theorem cons {t : Tree} (ht : ∀ token ∈ t.leaves, P token) (h : AllLeaves P ts) : AllLeaves P (t :: ts) :=
  List.forall_mem_cons.mpr ⟨ht, h⟩

theorem gather (h : AllLeaves P ts) (symbols : List Symbol) : AllLeaves P (gather symbols ts) := by
  intro t ht
  obtain ⟨part, hpart, hshare⟩ := List.mem_flatMap.mp ht
  have hleaves := h part.2 (List.of_mem_zip hpart).2
  unfold share at hshare
  split at hshare
  · exact fun token htoken => hleaves token (leaves_of_mem_children hshare htoken)
  · rw [List.mem_singleton.mp hshare]
    exact hleaves

theorem build (h : AllLeaves P ts) (p : Production) : ∀ token ∈ (build p ts).leaves, P token := by
  have hgather := h.gather p.body
  rcases collapsed_or_node p ts with ⟨_, hg⟩ | hb
  · rw [hg] at hgather
    exact hgather _ (List.mem_singleton_self _)
  · intro token htoken
    rw [hb, leaves_node] at htoken
    obtain ⟨t, ht, hmem⟩ := List.mem_flatMap.mp htoken
    exact hgather t ht token hmem

theorem reduce (h : AllLeaves P ts) (p : Production) : AllLeaves P (reduce ts p) := by
  refine .cons (build (fun t ht => ?_) p) fun t ht => h t (List.mem_of_mem_drop ht)
  exact h t (List.mem_of_mem_take (List.mem_reverse.mp ht))

theorem foldl_reduce (h : AllLeaves P ts) (ps : List Production) : AllLeaves P (ps.foldl Tree.reduce ts) := by
  induction ps generalizing ts with
  | nil => exact h
  | cons p ps ih => exact ih (h.reduce p)

theorem extend {t : Tree} (ht : ∀ token ∈ t.leaves, P token) (h : AllLeaves P extra) :
    ∀ token ∈ (t.extend extra).leaves, P token := by
  intro token htoken
  rcases leaves_extend extra t with he | he
  · rw [he] at htoken
    exact ht token htoken
  · rw [he, List.mem_append] at htoken
    rcases htoken with htoken | htoken
    · exact ht token htoken
    · obtain ⟨x, hx, hmem⟩ := List.mem_flatMap.mp htoken
      exact h x hx token hmem

theorem modify (h : AllLeaves P ts) (hextra : AllLeaves P extra) (i : Nat) :
    AllLeaves P (ts.modify i (Tree.extend extra)) := by
  induction ts generalizing i with
  | nil => simpa using h
  | cons t ts ih =>
      obtain ⟨ht, hts⟩ := List.forall_mem_cons.mp h
      cases i with
      | zero => exact .cons (hextra.extend ht) hts
      | succ i => exact .cons ht (ih hts i)

end AllLeaves

end Tree

/-! ## Trials -/

namespace Trial

variable {t : Trial} {place : Position}

/-- Whether all tokens in the trees of a trial, and of its parser, have a property. -/
structure AllLeaves (P : Token → Prop) (t : Trial) : Prop where
  drafts : Tree.AllLeaves P (t.drafts.map Draft.tree)
  values : Tree.AllLeaves P t.values

namespace AllLeaves

theorem of {p : Parser} (h : Tree.AllLeaves P p.values) : AllLeaves P (Trial.of p) := by
  refine ⟨?_, h⟩
  simpa [Trial.of, Function.comp_def] using h

theorem addition (h : t.AllLeaves P) (p : Production) : Tree.AllLeaves P (t.addition p) := by
  refine Tree.AllLeaves.gather (fun x hx => h.drafts x ?_) p.body.tail
  obtain ⟨d, hd, rfl⟩ := List.mem_map.mp (List.mem_of_mem_tail hx)
  exact List.mem_map_of_mem (List.mem_of_mem_take (List.mem_reverse.mp hd))

theorem reduce (h : t.AllLeaves P) (p : Production) : (t.reduce p).AllLeaves P := by
  refine ⟨by rw [drafts_reduce]; exact h.drafts.reduce p, ?_⟩
  by_cases hc : t.continues p
  · rw [values_reduce_of_continues hc]
    exact h.values.modify (h.addition p) _
  · rw [values_reduce_of_not_continues hc]
    exact h.values

theorem settle (h : t.AllLeaves P) (a : Lookahead) : (t.settle a).AllLeaves P := by
  have hfold : ((reductions a t.states).foldl Trial.reduce t).AllLeaves P := by
    induction reductions a t.states generalizing t with
    | nil => exact h
    | cons p ps ih => exact ih (h.reduce p)
  exact ⟨hfold.drafts, hfold.values⟩

theorem push (h : t.AllLeaves P) (hm : ∀ u, P (Token.missing u place)) (q : State) (u : Terminal) :
    (t.push q u place).AllLeaves P :=
  ⟨.cons (List.forall_mem_singleton.mpr (hm u)) h.drafts, h.values⟩

theorem play (h : t.AllLeaves P) (hm : ∀ u, P (Token.missing u place)) (us : List Terminal) :
    (t.play place us).AllLeaves P := by
  induction us generalizing t with
  | nil => exact h
  | cons u us ih =>
      have hsettle := h.settle (.token u)
      cases hq : shift? (top (t.settle (.token u)).states) u with
      | none =>
          rw [play_cons_of_none hq]
          exact hsettle
      | some q =>
          rw [play_cons_of_some hq]
          exact ih (hsettle.push hm q u)

end AllLeaves

end Trial

/-! ## The parser -/

namespace Parser

variable {p : Parser} {place : Position} {token : Token}

/-- Whether all tokens in a parser's trees have a property. -/
def AllLeaves (P : Token → Prop) (p : Parser) : Prop :=
  Tree.AllLeaves P p.values

namespace AllLeaves

theorem settle (h : p.AllLeaves P) (a : Lookahead) : (p.settle a).AllLeaves P :=
  h.foldl_reduce _

theorem feed (h : p.AllLeaves P) (t : Terminal) (ht : P token) : (p.feed t token).2.AllLeaves P := by
  cases hf : feed? p.states t with
  | none =>
      rw [feed_of_none hf]
      exact h.settle (.token t)
  | some qs =>
      rw [feed_of_some hf]
      exact .cons (List.forall_mem_singleton.mpr ht) (h.settle (.token t))

theorem search (h : p.AllLeaves P) (hm : ∀ u, P (Token.missing u place)) (wanted : Option Terminal) :
    (p.search place wanted).AllLeaves P := by
  unfold Parser.search
  induction Recovery.tried p.states wanted generalizing p with
  | nil => exact h
  | cons u us ih => exact ih ((Trial.AllLeaves.of h).play hm (u :: wanted.toList)).values

theorem advance (h : p.AllLeaves P) (hm : ∀ u, P (Token.missing u place)) (ht : P token) :
    (p.advance place token).2.AllLeaves P := by
  rcases p.advance_cases place token with ⟨_, ha⟩ | ⟨t, _, ⟨_, _, ha⟩ | ⟨_, _, ha⟩ | ⟨m, _, _, ha⟩⟩
  · rw [ha]
    exact h
  · rw [ha]
    exact h.feed t ht
  · rw [ha]
    exact (h.settle (.token t)).search hm (some t)
  · rw [ha]
    exact (((h.settle (.token t)).search hm (some t)).feed m (hm m)).feed t ht

theorem run (h : p.AllLeaves P) (hm : ∀ u, P (Token.missing u place)) {tokens : List Token}
    (hts : ∀ token ∈ tokens, P token ∧ ∀ u, P (Token.missing u token.stop)) :
    (p.run place tokens).1.AllLeaves P ∧ ∀ u, P (Token.missing u (p.run place tokens).2.1) := by
  induction tokens generalizing p place with
  | nil => exact ⟨h, hm⟩
  | cons token tokens ih =>
      obtain ⟨⟨ht, hstop⟩, hrest⟩ := List.forall_mem_cons.mp hts
      exact ih (h.advance hm ht) hstop hrest

theorem accept (h : p.AllLeaves P) : ∀ token ∈ p.accept.tree.leaves, P token := by
  obtain ⟨states, values⟩ := p
  cases values with
  | nil => simp [Parser.accept]
  | cons v values => exact h v List.mem_cons_self

theorem abandon (h : p.AllLeaves P) : ∀ token ∈ p.abandon.tree.leaves, P token := by
  intro token htoken
  rw [leaves_abandon] at htoken
  obtain ⟨t, ht, hmem⟩ := List.mem_flatMap.mp htoken
  exact h t (List.mem_reverse.mp ht) token hmem

theorem finish (h : p.AllLeaves P) (hm : ∀ u, P (Token.missing u place)) (n : Nat) :
    ∀ token ∈ (Parser.finish place n p).tree.leaves, P token := by
  induction n generalizing p with
  | zero => exact h.abandon
  | succ n ih =>
      have hsettle := h.settle .finish
      by_cases ha : top (settled .finish p.states) = accepting
      · rw [finish_of_accepting n ha]
        exact hsettle.accept
      · have hsearch : (p.unfinished place).AllLeaves P := hsettle.search hm none
        cases hi : insertion? (settled .finish p.states) none with
        | none =>
            rw [finish_of_none n ha hi]
            exact hsearch.abandon
        | some m =>
            rw [finish_of_some n ha hi]
            exact ih (hsearch.feed m (hm m))

end AllLeaves

end Parser

/-! ## Origins -/

/-- Where a token in the tree of a text can come from. -/
inductive Origin (text : String) : Token → Prop
  | written {token : Token} : token ∈ significant (tokenize text) → Origin text token
  | atStart (t : Terminal) : Origin text (Token.missing t Position.start)
  | behind (t : Terminal) {token : Token} : token ∈ significant (tokenize text) →
      Origin text (Token.missing t token.stop)

theorem origin_of_mem_leaves (text : String) : ∀ token ∈ (parse text).tree.leaves, Origin text token := by
  have hinitial : Parser.initial.AllLeaves (Origin text) := List.forall_mem_nil _
  have hwritten : ∀ token ∈ significant (tokenize text),
      Origin text token ∧ ∀ t, Origin text (Token.missing t token.stop) :=
    fun token htoken => ⟨.written htoken, fun t => .behind t htoken⟩
  obtain ⟨hrun, hplace⟩ := hinitial.run Origin.atStart hwritten
  exact hrun.finish hplace Parser.completionLimit

theorem exists_indexOf? {text : String} {token : Token} (h : token ∈ tokenize text) :
    ∃ i, (parse text).indexOf? token = some i ∧ (parse text).tokens[i]? = some token := by
  obtain ⟨us, vs, hsplit⟩ := List.append_of_mem h
  refine ⟨us.length, indexOf?_parse hsplit, ?_⟩
  change (tokenize text)[us.length]? = some token
  rw [hsplit]
  simp

/-! ## Names in their lines -/

/-- A token in which no line ends is found in its line, at its column. -/
theorem prefix_of_mem_tokenize {text : String} {token : Token} (h : token ∈ tokenize text)
    (hline : '\n' ∉ token.text.toList) :
    ∃ n line, token.start.line = n + 1 ∧ (text.toList.splitOn '\n')[n]? = some line ∧
      token.text.toList <+: line.drop (token.start.column - 1) := by
  obtain ⟨before, behind, hsplit, hstart⟩ := split_of_mem_tokenize h
  have hplace := hstart.trans (placeAt_append before (token.text.toList ++ behind)).symm
  have hpiece := Text.splitOn_around '\n' before (token.text.toList ++ behind)
  have hwhole : ∀ c ∈ token.text.toList, (c != '\n') = true := by
    intro c hc
    rw [bne_iff_ne]
    rintro rfl
    exact hline hc
  rw [List.takeWhile_append_of_pos hwhole, ← hsplit] at hpiece
  rw [hplace, placeAt, List.take_left]
  refine ⟨before.count '\n', _, Nat.add_comm _ _, hpiece, ?_⟩
  rw [Nat.add_sub_cancel_left, List.drop_left]
  exact List.prefix_append _ _

theorem newline_notMem_of_isName {text : String} {token : Token} (h : token ∈ tokenize text) (hn : token.isName) :
    '\n' ∉ token.text.toList := by
  obtain ⟨c, cs, htext, hc, hcs⟩ := name_of_mem_tokenize h hn
  rw [htext, List.mem_cons, not_or]
  refine ⟨?_, fun hmem => absurd (hcs _ hmem) (by decide)⟩
  rintro rfl
  exact absurd hc (by decide)

/-- An entry is made from a name that is written in the tree. -/
theorem SymbolTable.exists_name {source : Option String} {t : Tree} {entry : SymbolEntry}
    (h : entry ∈ ofTree source t) : ∃ token ∈ t.leaves, token.isName ∧ token.isMissing = false ∧
      entry.name = token.text ∧ entry.line = token.start.line ∧ entry.column = token.start.column - 1 := by
  obtain ⟨s, hs, hentry⟩ := List.mem_filterMap.mp h
  cases s with
  | leaf token => cases hentry
  | node rule span children =>
      simp only [declaration?] at hentry
      split at hentry
      · rename_i kind name _ hname
        split at hentry
        · cases hentry
        · rename_i hmissing
          cases hentry
          have hmem := List.mem_of_mem_head? hname
          exact ⟨name, leaves_of_mem_subtrees t _ hs (names_subset_leaves _ hmem), List.of_mem_filter hmem,
            by simpa using hmissing, rfl, rfl, rfl⟩
      · cases hentry

/-- Each leaf of a tree is the token of the text that is at its index, or it has no index and was made up at the end of
a token that is not hidden, or at the start of the text. The names of entries stand in the text where the entries say.
-/
theorem leaves_from_text (text : String) :
    (∀ token ∈ (parse text).tree.leaves,
      (∃ i, (parse text).indexOf? token = some i ∧ (parse text).tokens[i]? = some token) ∨
      ((parse text).indexOf? token = none ∧ token.text = "" ∧ token.stop = token.start ∧
        (token.start = ⟨0, 1, 1⟩ ∨
          ∃ last ∈ (parse text).tokens, last.kind.hidden = false ∧ token.start = last.stop))) ∧
    ∀ source, ∀ entry ∈ SymbolTable.ofTree source (parse text).tree,
      entry.name ≠ "" ∧ ∃ n line, entry.line = n + 1 ∧ (text.toList.splitOn '\n')[n]? = some line ∧
        entry.name.toList <+: line.drop entry.column := by
  constructor
  · intro token htoken
    cases origin_of_mem_leaves text token htoken with
    | written h => exact .inl (exists_indexOf? (List.mem_of_mem_filter h))
    | atStart t => exact .inr ⟨rfl, rfl, rfl, .inl rfl⟩
    | behind t h =>
        obtain ⟨hmem, hhidden⟩ := List.mem_filter.mp h
        exact .inr ⟨rfl, rfl, rfl, .inr ⟨_, hmem, by simpa using hhidden, rfl⟩⟩
  · intro source entry hentry
    obtain ⟨token, htoken, hisName, hmissing, hname, hline, hcolumn⟩ := SymbolTable.exists_name hentry
    have hmem : token ∈ tokenize text := by
      cases origin_of_mem_leaves text token htoken with
      | written h => exact List.mem_of_mem_filter h
      | atStart t => cases hmissing
      | behind t h => cases hmissing
    rw [hname, hline, hcolumn]
    refine ⟨?_, prefix_of_mem_tokenize hmem (newline_notMem_of_isName hmem hisName)⟩
    simpa [Token.isMissing] using hmissing

/-- The blank behind `val` starts where a name is missing, but it is not taken for the name. -/
theorem leaves_from_text_missing_name :
    let p := parse "val\n class B"
    let absent := Token.missing .name ⟨3, 1, 4⟩
    let name : Token := ⟨.terminal .name, "B", ⟨11, 2, 8⟩, ⟨12, 2, 9⟩⟩
    absent ∈ p.tree.leaves ∧ (∃ blank ∈ p.tokens, blank.start = absent.start) ∧ p.indexOf? absent = none ∧
    name ∈ p.tree.leaves ∧ (∃ i, p.indexOf? name = some i ∧ p.tokens[i]? = some name) ∧
    ⟨"B", .type, none, 2, 7⟩ ∈ SymbolTable.ofTree none p.tree ∧
    ∃ n line, 2 = n + 1 ∧ ("val\n class B".toList.splitOn '\n')[n]? = some line ∧ "B".toList <+: line.drop 7 := by
  have habsent : Token.missing .name ⟨3, 1, 4⟩ ∈ (parse "val\n class B").tree.leaves := by decide +kernel
  have hblank : ∃ blank ∈ (parse "val\n class B").tokens, blank.start = ⟨3, 1, 4⟩ := by decide +kernel
  have hname : ⟨.terminal .name, "B", ⟨11, 2, 8⟩, ⟨12, 2, 9⟩⟩ ∈ (parse "val\n class B").tree.leaves := by decide +kernel
  have hentry : ⟨"B", .type, none, 2, 7⟩ ∈ SymbolTable.ofTree none (parse "val\n class B").tree := by decide +kernel
  obtain ⟨hleaves, hentries⟩ := leaves_from_text "val\n class B"
  refine ⟨habsent, hblank, ?_, hname, ?_, hentry, (hentries none _ hentry).2⟩
  · rcases hleaves _ habsent with ⟨i, hi, _⟩ | ⟨hnone, _⟩
    · cases hi
    · exact hnone
  · rcases hleaves _ hname with hindex | ⟨_, htext, _⟩
    · exact hindex
    · exact absurd htext (by decide)

end Typeahead
