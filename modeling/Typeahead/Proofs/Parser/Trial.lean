import Mathlib.Data.List.Dedup
import Typeahead.Proofs.Parser.Trees

/-!
What trials leave in the parser. They share what is open in it, so what they add to a repeated part stays
there; but all the tokens of the text that they leave are echoes of ones that come again later.
-/

namespace Typeahead

open Automaton Typeahead.Tree

/-! ## Echoes -/

/-- A list with echoes: stretches put in before other stretches that contain all of theirs. -/
inductive Echoed {α : Type} (xs : List α) : List α → Prop
  | refl : Echoed xs xs
  | step {before echo after : List α} : Echoed xs (before ++ after) → echo ⊆ after →
      Echoed xs (before ++ echo ++ after)

namespace Echoed

variable {α : Type} {xs ys zs : List α}

theorem trans (h : Echoed xs ys) (h' : Echoed ys zs) : Echoed xs zs := by
  induction h' with
  | refl => exact h
  | step _ hs ih => exact .step ih hs

theorem append_right (h : Echoed xs ys) (zs : List α) : Echoed (xs ++ zs) (ys ++ zs) := by
  induction h with
  | refl => exact .refl
  | step _ hs ih =>
      rw [List.append_assoc] at ih ⊢
      exact .step ih (List.subset_append_of_subset_left _ hs)

theorem sublist (h : Echoed xs ys) : xs.Sublist ys := by
  induction h with
  | refl => exact .refl _
  | step _ _ ih =>
      rw [List.append_assoc]
      exact ih.trans ((List.sublist_append_right _ _).append_left _)

/-- Nothing is echoed if the lists are equal in the end. -/
theorem eq_of_eq (h : Echoed xs ys) (h' : Echoed ys xs) : ys = xs :=
  h'.sublist.antisymm h.sublist

/-- The last occurrences are those of the list without echoes. -/
theorem dedup_eq [DecidableEq α] (h : Echoed xs ys) : ys.dedup = xs.dedup := by
  induction h with
  | refl => rfl
  | step _ hs ih =>
      rw [List.append_assoc, List.dedup_append, List.Subset.dedup_append_right hs, ← List.dedup_append, ih]

theorem mem_iff [DecidableEq α] {x : α} (h : Echoed xs ys) : x ∈ ys ↔ x ∈ xs := by
  rw [← List.mem_dedup, h.dedup_eq, List.mem_dedup]

end Echoed

/-- The tokens that stand in the text, without those that the parser made up. -/
def written (tokens : List Token) : List Token :=
  tokens.filter (!·.isMissing)

@[simp] theorem written_append (xs ys : List Token) : written (xs ++ ys) = written xs ++ written ys :=
  List.filter_append xs ys

@[simp] theorem written_missing (t : Terminal) (place : Position) :
    written [Token.missing t place] = [] := rfl

/-! ## Stacks of trees that grow in place -/

/-- What trials can do to a parser's trees: some get more children, whose tokens come again in trees
further up. -/
structure Enlarged (stack stack' : List Tree) : Prop where
  length_eq : stack'.length = stack.length
  fills : ∀ ss, List.Forall₂ Fills ss stack → List.Forall₂ Fills ss stack'
  sublist : ∀ i, (leavesFrom i stack).Sublist (leavesFrom i stack')
  echoed : Echoed (written (leavesAll stack)) (written (leavesAll stack'))

namespace Enlarged

variable {stack stack' stack'' : List Tree}

theorem refl (stack : List Tree) : Enlarged stack stack :=
  ⟨rfl, fun _ h => h, fun _ => .refl _, .refl⟩

theorem trans (h : Enlarged stack stack') (h' : Enlarged stack' stack'') : Enlarged stack stack'' :=
  ⟨h'.length_eq.trans h.length_eq, fun ss hs => h'.fills ss (h.fills ss hs),
    fun i => (h.sublist i).trans (h'.sublist i), h.echoed.trans h'.echoed⟩

theorem leavesFrom_extend (i : Nat) (t : Tree) (extra : List Tree) :
    (leavesFrom i [t]).Sublist (leavesFrom i [t.extend extra]) := by
  cases i with
  | zero =>
      rcases leaves_extend extra t with h | h <;> simp [leavesAll, h]
  | succ i => simp [leavesFrom]

theorem of_extend {above below extra : List Tree} {t : Tree}
    (h : written (extra.flatMap leaves) ⊆ written (leavesAll above)) :
    Enlarged (above ++ t :: below) (above ++ t.extend extra :: below) where
  length_eq := by simp
  fills _ hs := forall₂_replace hs fun _ hf => hf.extend extra
  sublist i := by
    rw [← List.singleton_append, ← List.singleton_append (l := below)]
    simp only [leavesFrom_append]
    exact ((leavesFrom_extend ..).append_left _).append_right _
  echoed := by
    simp only [leavesAll_append, leavesAll_cons, written_append]
    rcases leaves_extend extra t with ht | ht
    · rw [ht]
      exact .refl
    · rw [ht, written_append, ← List.append_assoc]
      exact .step .refl h

end Enlarged

/-! ## Trials -/

theorem written_subset {xs ys : List Token} (h : xs ⊆ ys) : written xs ⊆ written ys :=
  List.filter_subset _ h

namespace Trial

variable {t : Trial} {p : Production} {a : Lookahead} {qs qs' : List State}

/-- Whether a reduction goes on with a tree that the trial shares with its parser. -/
def continues (t : Trial) (p : Production) : Bool :=
  p.body.head?.any Symbol.spliced && (t.drafts.take p.body.length).reverse.head?.any Draft.shared

/-- What a reduction that goes on with a shared tree adds to it. -/
def addition (t : Trial) (p : Production) : List Tree :=
  gather p.body.tail ((t.drafts.take p.body.length).reverse.map Draft.tree).tail

theorem drafts_reduce (t : Trial) (p : Production) :
    (t.reduce p).drafts.map Draft.tree = Tree.reduce (t.drafts.map Draft.tree) p := by
  simp [reduce, Tree.reduce, List.map_take, List.map_drop]

theorem values_reduce_of_continues (h : t.continues p) :
    (t.reduce p).values =
      t.values.modify (t.values.length - 1 - (t.drafts.drop p.body.length).length)
        (Tree.extend (t.addition p)) := by
  unfold continues at h
  simp only [reduce, h, ↓reduceIte]
  rfl

theorem values_reduce_of_not_continues (h : ¬ t.continues p) : (t.reduce p).values = t.values := by
  unfold continues at h
  simp only [reduce, h]
  rfl

theorem exists_of_continues (h : t.continues p) : ∃ d parts, d.shared ∧
    (t.drafts.take p.body.length).reverse = d :: parts ∧
    t.drafts = parts.reverse ++ d :: t.drafts.drop p.body.length := by
  simp only [continues, Bool.and_eq_true] at h
  cases hp : (t.drafts.take p.body.length).reverse with
  | nil => simp [hp] at h
  | cons d parts =>
      refine ⟨d, parts, by simpa [hp] using h.2, rfl, ?_⟩
      have htake : t.drafts.take p.body.length = parts.reverse ++ [d] := by
        simpa using congrArg List.reverse hp
      conv_lhs => rw [← List.take_append_drop p.body.length t.drafts, htake]
      simp

theorem forall₂_drafts {R : Symbol → Tree → Prop} {rest : List Symbol}
    (h : List.Forall₂ R (p.body.reverse ++ rest) (t.drafts.map Draft.tree)) :
    List.Forall₂ R p.body ((t.drafts.take p.body.length).reverse.map Draft.tree) := by
  have hparts := (forall₂_parts h).1
  rwa [← List.map_take, ← List.map_reverse] at hparts

/-- The addition to a shared tree has the leaves that lie above it. -/
theorem leaves_addition {rest : List Symbol}
    (h : List.Forall₂ Fills (p.body.reverse ++ rest) (t.drafts.map Draft.tree)) :
    (t.addition p).flatMap leaves =
      leavesFrom ((t.drafts.drop p.body.length).length + 1) (t.drafts.map Draft.tree) := by
  rw [addition, leaves_gather (by simpa using List.forall₂_drop 1 (forall₂_drafts h))]
  conv_rhs => rw [← List.take_append_drop p.body.length t.drafts, List.map_append, leavesFrom_append,
    leavesFrom_of_le (by simp), List.nil_append]
  simp [leavesFrom]

/-- A change at a height counted from below. -/
theorem exists_modify {i : Nat} {stack : List Tree} (h : i < stack.length) (f : Tree → Tree) :
    ∃ above v below, stack = above ++ v :: below ∧ below.length = i ∧
      stack.modify (stack.length - 1 - i) f = above ++ f v :: below := by
  have hlt : stack.length - 1 - i < stack.length := by omega
  refine ⟨stack.take _, stack.get ⟨_, hlt⟩, stack.drop (stack.length - 1 - i + 1), ?_, ?_,
    List.modify_eq_take_cons_drop hlt⟩
  · simp
  · simp only [List.length_drop]
    omega

/-- A trial after the reductions before a lookahead. -/
def settle (t : Trial) (a : Lookahead) : Trial :=
  { (reductions a t.states).foldl reduce t with states := settled a t.states }

/-- A trial after a terminal that it inserts and shifts. -/
def push (t : Trial) (q : State) (a : Terminal) (place : Position) : Trial :=
  ⟨q :: t.states, ⟨.leaf (Token.missing a place), false⟩ :: t.drafts, t.values⟩

theorem play_cons_of_none {place : Position} {a : Terminal} {as : List Terminal}
    (h : shift? (top (t.settle (.token a)).states) a = none) :
    t.play place (a :: as) = t.settle (.token a) := by
  unfold settle settled at h
  simp only [play, h]
  rfl

theorem play_cons_of_some {place : Position} {a : Terminal} {as : List Terminal} {q : State}
    (h : shift? (top (t.settle (.token a)).states) a = some q) :
    t.play place (a :: as) = ((t.settle (.token a)).push q a place).play place as := by
  unfold settle settled at h
  simp only [play, h]
  rfl

/-- What holds throughout a trial: its trees stand for the symbols that led to its states; it shares
nothing above the parser's own trees; and it has no written token at a height that the parser does not
have there. -/
structure Sound (qs : List State) (t : Trial) : Prop where
  stands : ∃ ss, Spells qs ss ∧ List.Forall₂ Fills ss (t.drafts.map Draft.tree)
  shared : ∀ above d below, t.drafts = above ++ d :: below → d.shared → below.length < t.values.length
  within : ∀ i, written (leavesFrom i (t.drafts.map Draft.tree)) ⊆ written (leavesFrom i t.values)

namespace Sound

theorem of {p : Parser} (h : p.Sound) : Sound p.states (Trial.of p) := by
  have htrees : (Trial.of p).drafts.map Draft.tree = p.values := by
    simp [Trial.of, Function.comp_def]
  refine ⟨by rwa [htrees], fun above d below hd _ => ?_, fun i => by rw [htrees]; exact List.Subset.refl _⟩
  have hlen := congrArg List.length hd
  simp only [Trial.of, List.length_map, List.length_append, List.length_cons] at hlen
  change below.length < p.values.length
  omega

/-- A shared tree is continued by what lies above it. -/
theorem enlarged (h : Sound qs t) (hr : reduce? qs a = some (p, qs')) :
    Enlarged t.values (t.reduce p).values := by
  by_cases hc : t.continues p
  · obtain ⟨d, parts, hd, hparts, hsplit⟩ := exists_of_continues hc
    have hlt := h.shared _ _ _ hsplit hd
    obtain ⟨ss, hs, hf⟩ := h.stands
    obtain ⟨rest, rfl, _⟩ := hs.reduce? hr
    -- The shared tree cuts the parser's stack in two; what is added to it lies above the cut.
    obtain ⟨above, v, below, hvalues, hlen, hmodify⟩ := exists_modify hlt (Tree.extend (t.addition p))
    have habove : leavesFrom ((t.drafts.drop p.body.length).length + 1) t.values = leavesAll above := by
      rw [hvalues, ← hlen, leavesFrom_above]
    rw [values_reduce_of_continues hc, hmodify]
    conv_lhs => rw [hvalues]
    refine .of_extend ?_
    rw [leaves_addition hf, ← habove]
    exact h.within _
  · rw [values_reduce_of_not_continues hc]
    exact .refl _

theorem reduce (h : Sound qs t) (hr : reduce? qs a = some (p, qs')) : Sound qs' (t.reduce p) := by
  have henlarged := h.enlarged hr
  obtain ⟨ss, hs, hf⟩ := h.stands
  obtain ⟨rest, rfl, hs'⟩ := hs.reduce? hr
  refine ⟨⟨_, hs', by rw [drafts_reduce]; exact fills_reduce hf⟩, fun above d below hsplit hd => ?_,
    fun i => ?_⟩
  · rw [henlarged.length_eq]
    change _ :: t.drafts.drop p.body.length = _ at hsplit
    cases above with
    | nil =>
        -- The new tree is shared only if the first of its parts was.
        obtain ⟨rfl, rfl⟩ := List.cons.inj hsplit
        obtain ⟨d', parts, hd', _, hsplit'⟩ := exists_of_continues hd
        exact h.shared _ _ _ hsplit' hd'
    | cons _ above =>
        obtain ⟨_, hdrop⟩ := List.cons.inj hsplit
        refine h.shared (t.drafts.take p.body.length ++ above) d below ?_ hd
        rw [List.append_assoc]
        exact (List.take_append_drop p.body.length t.drafts).symm.trans (congrArg _ hdrop)
  · rw [drafts_reduce]
    exact List.Subset.trans (written_subset (leavesFrom_reduce_subset hf i))
      (List.Subset.trans (h.within i) (written_subset (henlarged.sublist i).subset))

theorem push (h : Sound t.states t) {a : Terminal} {q : State}
    (hq : shift? (top t.states) a = some q) (place : Position) :
    Sound (t.push q a place).states (t.push q a place) := by
  obtain ⟨ss, hs, hf⟩ := h.stands
  refine ⟨⟨_, hs.shift? hq, .cons (fun h => by cases h) hf⟩, fun above d below hsplit hd => ?_, fun i => ?_⟩
  · cases above with
    | nil =>
        obtain ⟨rfl, _⟩ := List.cons.inj hsplit
        cases hd
    | cons _ above => exact h.shared above d below (List.cons.inj hsplit).2 hd
  · have hmissing : written (leavesFrom (i - t.drafts.length) [.leaf (Token.missing a place)]) = [] := by
      cases i - t.drafts.length with
      | zero => rfl
      | succ n => simp [leavesFrom, written]
    rw [Trial.push, List.map_cons, ← List.singleton_append, leavesFrom_append, written_append,
      List.length_map, hmissing, List.append_nil]
    exact h.within i

theorem settle (h : Sound t.states t) (a : Lookahead) :
    Sound (t.settle a).states (t.settle a) ∧ Enlarged t.values (t.settle a).values := by
  obtain ⟨ss, hs, _⟩ := h.stands
  have hsettles := (hs.settles a).foldl (f := Trial.reduce)
    (M := fun qs t' => Sound qs t' ∧ Enlarged t.values t'.values)
    (fun hr h' => ⟨h'.1.reduce hr, h'.2.trans (h'.1.enlarged hr)⟩) ⟨h, .refl _⟩
  exact ⟨⟨hsettles.1.stands, hsettles.1.shared, hsettles.1.within⟩, hsettles.2⟩

theorem play (h : Sound t.states t) (place : Position) (as : List Terminal) :
    Enlarged t.values (t.play place as).values := by
  induction as generalizing t with
  | nil => exact .refl _
  | cons a as ih =>
      obtain ⟨hsound, he⟩ := h.settle (.token a)
      cases hq : shift? (top (t.settle (.token a)).states) a with
      | none =>
          rw [play_cons_of_none hq]
          exact he
      | some q =>
          rw [play_cons_of_some hq]
          exact he.trans (ih (hsound.push hq place))

end Sound

end Trial

namespace Parser

variable {p : Parser}

theorem Sound.attempt (h : p.Sound) (place : Position) (ts : List Terminal) :
    Enlarged p.values (p.attempt place ts).values :=
  Trial.Sound.play (t := Trial.of p) (.of h) place ts

theorem Sound.of_enlarged {values : List Tree} (h : p.Sound) (he : Enlarged p.values values) :
    Sound { p with values } := by
  obtain ⟨ss, hs, hf⟩ := h
  exact ⟨ss, hs, he.fills ss hf⟩

/-- A search leaves at most echoes. -/
theorem Sound.search (h : p.Sound) (place : Position) (wanted : Option Terminal) :
    (p.search place wanted).Sound ∧ Enlarged p.values (p.search place wanted).values := by
  unfold Parser.search
  induction Recovery.tried p.states wanted generalizing p with
  | nil => exact ⟨h, .refl _⟩
  | cons t ts ih =>
      have he := h.attempt place (t :: wanted.toList)
      obtain ⟨hs, he'⟩ := ih (h.of_enlarged he)
      exact ⟨hs, he.trans he'⟩

end Parser

end Typeahead
