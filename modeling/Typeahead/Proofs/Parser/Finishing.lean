import Typeahead.Proofs.Parser.Closing
import Typeahead.Proofs.Parser.Progress

/-!
How many insertions finish a text. Each one gets on with what is owed in the state on top, or closes a
bracket that is open; so there are at most two for every open bracket and six more, and a text that leaves
few brackets open is always accepted.
-/

namespace Typeahead

open Automaton Recovery

variable {q : State} {qs qs' : List State} {t o m : Terminal} {w : List Terminal}

/-- A bound on the insertions that finish a text, from the terminals read and the states they led to. -/
def toFinish (w : List Terminal) (qs : List State) : Nat :=
  2 * (unclosed w).length + owed (top qs)

/-! ## One insertion -/

theorem toFinish_lt_of_shift (h : price t + owed q ≤ owed (top qs)) :
    toFinish (w ++ [t]) (q :: qs) < toFinish w qs := by
  have hnest := length_nest_le (unclosed w) t
  rw [toFinish, toFinish, unclosed_append, List.foldl_cons, List.foldl_nil, top_cons]
  unfold price at h
  by_cases ht : t.opens
  · rw [if_pos ht] at h hnest
    omega
  · rw [if_neg ht] at h hnest
    omega

namespace Yields

/-- A closing bracket is only taken where it closes the innermost open one. -/
theorem unclosed_of_closing (h : Yields qs w) (hf : Automaton.feed? qs t = some qs') (ht : t.opening? = some o) :
    ∃ bs, unclosed w = o :: bs := by
  obtain ⟨q, hq, rfl⟩ := feed?_eq_some.mp hf
  obtain ⟨ss, hs, hw⟩ := h.settled (.token t)
  obtain ⟨front, rest, rfl, hfront⟩ := (hs.shift? hq).front_of_closing ht
  have hopen := hw.unclosed_eq
  rw [List.reverse_append, List.reverse_reverse, List.filterMap_append, unclosed_append,
    ← foldl_nest_filter, hfront] at hopen
  exact ⟨_, hopen.trans (nest_of_opens (Terminal.opens_of_opening? ht).2)⟩

theorem toFinish_lt_of_closing (h : Yields qs w) (hf : Automaton.feed? qs t = some qs') (ht : t.opening? = some o) :
    toFinish (w ++ [t]) qs' < toFinish w qs := by
  obtain ⟨bs, hbs⟩ := h.unclosed_of_closing hf ht
  obtain ⟨q, hq, rfl⟩ := feed?_eq_some.mp hf
  have hsymbol : (row q).symbol = some (.t t) := symbol_of_next? hq
  have howed := (finishable_row (lt_of_symbol hsymbol)).owed_of_closing t (by rw [hsymbol]; rfl)
    (Option.isSome_of_mem ht)
  -- The bracket counted for two, and what stands behind it, as after the condition of a loop, owes at most one.
  rw [toFinish, toFinish, unclosed_append, List.foldl_cons, List.foldl_nil, hbs, nest_of_opening? ht,
    top_cons, List.length_cons]
  omega

/-- Where a text cannot end, the insertion made there brings it nearer to its end. -/
theorem insertion?_lt (h : Yields qs w) (htop : top (Automaton.settled .finish qs) ≠ accepting)
    (hi : insertion? (Automaton.settled .finish qs) none = some m)
    (hm : Automaton.feed? (Automaton.settled .finish qs) m = some qs') :
    toFinish (w ++ [m]) qs' < toFinish w qs := by
  have hsettled := h.settled .finish
  obtain ⟨_, hs, _⟩ := h
  obtain ⟨_, hs'⟩ := hs.settled .finish
  have hle : toFinish w (Automaton.settled .finish qs) ≤ toFinish w qs :=
    Nat.add_le_add_left (hs.owed_settled .finish) _
  refine Nat.lt_of_lt_of_le ?_ hle
  obtain ⟨t, ht, hcase⟩ := (finishable_row hs'.top_lt).insertion htop (hs.complete?_settled .finish)
  have haccepts : accepts (Automaton.settled .finish qs) t := by
    rcases hcase with ⟨q, hq, _⟩ | ⟨hclosing, hcloses⟩
    · simp [accepts, hs'.feed?_of_shift? hq]
    · exact hs'.accepts_of_closes hclosing hcloses
  rw [insertion?_of_head? ht haccepts] at hi
  cases hi
  rcases hcase with ⟨q, hq, howed⟩ | ⟨hclosing, _⟩
  · rw [hs'.feed?_of_shift? hq] at hm
    cases hm
    exact toFinish_lt_of_shift howed
  · obtain ⟨o, ho⟩ := Option.isSome_iff_exists.mp hclosing
    exact hsettled.toFinish_lt_of_closing hm ho

/-! ## All of them -/

theorem length_completion_le (h : Yields qs w) (n : Nat) : (completion n qs).length ≤ toFinish w qs := by
  induction n generalizing qs w with
  | zero => exact Nat.zero_le _
  | succ n ih =>
      by_cases htop : top (Automaton.settled .finish qs) = accepting
      · simp [completion, htop]
      · cases hi : insertion? (Automaton.settled .finish qs) none with
        | none => simp [completion, htop, hi]
        | some m =>
            obtain ⟨qs', hm, hc⟩ := completion_of_some (n := n) htop hi
            have hlt := h.insertion?_lt htop hi hm
            have hrest := ih ((h.settled .finish).feed? hm)
            rw [hc, List.length_cons]
            omega

theorem toFinish_le (h : Yields qs w) : toFinish w qs ≤ 2 * (unclosed w).length + 6 := by
  obtain ⟨ss, hs, _⟩ := h
  exact Nat.add_le_add_left (finishable_row hs.top_lt).owed_le _

end Yields

/-! ## Whole texts -/

/-- The brackets that a text leaves open, mended as its issues say but not finished. -/
def leftOpen (text : String) : List Terminal :=
  unclosed ((significant (tokenize text)).flatMap (mendedToken (parse text).issues))

theorem length_completion_readAll (text : String) (n : Nat) :
    (completion n (readAll (tokenize text)).1.states).length ≤ 2 * (leftOpen text).length + 6 := by
  have h : Yields (readAll (tokenize text)).1.states ([] ++ (outcomesOf text).flatMap fed) :=
    Yields.run (p := Parser.initial) Yields.nil Position.start (significant (tokenize text))
  rw [leftOpen, flatMap_mendedToken]
  exact Nat.le_trans (h.length_completion_le n) h.toFinish_le

/-- At the end of a text at most two terminals are inserted for every bracket left open, and six more; if so many
are allowed, the text is accepted. So every text that leaves at most twelve brackets open is accepted. -/
theorem unclosed_text_finished (text : String) :
    let (p, place) := readAll (tokenize text)
    let bound := 2 * (leftOpen text).length + 6
    (∀ n, (Parser.finish place n p).issues.length ≤ bound ∧
      (bound < n → (Parser.finish place n p).accepted)) ∧
    ((leftOpen text).length ≤ 12 →
      (parse text).accepted ∧ ((parse text).issues.filterMap Issue.atEnd?).length ≤ bound) := by
  have hle := length_completion_readAll text
  have haccepted : ∀ n, 2 * (leftOpen text).length + 6 < n →
      (Parser.finish (readAll (tokenize text)).2 n (readAll (tokenize text)).1).accepted := by
    intro n hn
    refine (Parser.finish_of_underway (readAll_reached (tokenize text)).underway _ n).2.resolve_right ?_
    have hlen := hle n
    omega
  refine ⟨fun n => ⟨?_, haccepted n⟩, fun hopen => ⟨?_, ?_⟩⟩
  · rw [Parser.issues_finish, List.length_map]
    exact hle n
  · refine haccepted Parser.completionLimit ?_
    rw [Parser.completionLimit]
    omega
  · rw [atEnd?_parse]
    exact hle Parser.completionLimit

/-- A loop in a block, with nothing after its parenthesis. -/
theorem unclosed_text_finished_loop :
    let (p, place) := readAll (tokenize "fun f() \x7b for (")
    leftOpen "fun f() \x7b for (" = [.lpar, .lbrace] ∧
    (Parser.finish place 11 p).accepted ∧ (parse "fun f() \x7b for (").accepted ∧
    (parse "fun f() \x7b for (").issues.filterMap Issue.atEnd? =
      [.name, .kwIn, .name, .rpar, .name, .rbrace] := by
  obtain ⟨hfinish, hparse⟩ := unclosed_text_finished "fun f() \x7b for ("
  have hopen : leftOpen "fun f() \x7b for (" = [.lpar, .lbrace] := by decide +kernel
  rw [hopen] at hfinish hparse
  exact ⟨hopen, (hfinish 11).2 (by decide), (hparse (by decide)).1, by decide +kernel⟩

end Typeahead
