import Typeahead.Proofs.Token.Order

/-!
A text that is cut at the end of a token. What begins a text is recognised without a look beyond it, so the
tokens before the cut stay as they are.
-/

namespace Typeahead

namespace Lexer

/-! ## Recognisers that do not look ahead -/

/-- A recogniser that takes no more than there is and does not look beyond it: what it finds, it finds too
where the text is cut behind it, and where it finds nothing, a cut text gives it nothing either. -/
structure Local {α : Type} (f : List Char → Option α) (size : α → Nat) : Prop where
  size_le {cs : List Char} {x : α} : f cs = some x → size x ≤ cs.length
  some_of_append {a b : List Char} {x : α} : f (a ++ b) = some x → size x ≤ a.length → f a = some x
  none_of_append {a b : List Char} : f (a ++ b) = none → f a = none

namespace Local

variable {α : Type} {f g : List Char → Option α} {size : α → Nat}

theorem or (hf : Local f size) (hg : Local g size) : Local (fun cs => (f cs).or (g cs)) size where
  size_le h := by
    rcases Option.or_eq_some_iff.mp h with h | ⟨_, h⟩
    · exact hf.size_le h
    · exact hg.size_le h
  some_of_append h hle := by
    rcases Option.or_eq_some_iff.mp h with h | ⟨hnone, h⟩
    · simp [hf.some_of_append h hle]
    · simp [hf.none_of_append hnone, hg.some_of_append h hle]
  none_of_append h := by
    obtain ⟨hfn, hgn⟩ := Option.or_eq_none_iff.mp h
    simp [hf.none_of_append hfn, hg.none_of_append hgn]

theorem none : Local (fun _ => Option.none) size :=
  ⟨fun h => (by cases h), fun h => (by cases h), fun _ => rfl⟩

/-- What is found, labelled by something that depends on it alone. -/
theorem label {f : List Char → Option Nat} (hf : Local f id) (label : List Char → Terminal) :
    Local (fun cs => (f cs).map fun n => (label (cs.take n), n)) Prod.snd where
  size_le h := by
    obtain ⟨n, hn, rfl⟩ := Option.map_eq_some_iff.mp h
    exact hf.size_le hn
  some_of_append h hle := by
    obtain ⟨n, hn, rfl⟩ := Option.map_eq_some_iff.mp h
    rw [hf.some_of_append hn hle, Option.map_some, List.take_append_of_le_length hle]
  none_of_append h := by
    rw [Option.map_eq_none_iff] at h ⊢
    exact hf.none_of_append h

end Local

/-! ## Runs -/

section Runs

variable {p : Char → Bool} {a b : List Char}

theorem runLength_le (p : Char → Bool) (cs : List Char) : runLength p cs ≤ cs.length :=
  (List.takeWhile_sublist p).length_le

theorem runLength_append : runLength p (a ++ b) =
    if runLength p a = a.length then a.length + runLength p b else runLength p a := by
  unfold runLength
  rw [List.takeWhile_append]
  split <;> simp_all

/-- A run that ends before the cut is not changed by it. -/
theorem runLength_of_append (h : runLength p (a ++ b) ≤ a.length) : runLength p (a ++ b) = runLength p a := by
  rw [runLength_append] at h ⊢
  split
  · rename_i heq
    rw [if_pos heq] at h
    omega
  · rfl

theorem runLength_eq_zero_of_append (h : runLength p (a ++ b) = 0) : runLength p a = 0 := by
  rw [← runLength_of_append (b := b) (by omega), h]

end Runs

/-! ## The recognisers of terminals -/

theorem local_name? : Local name? id where
  size_le {cs n} h := by
    cases cs with
    | nil => cases h
    | cons c cs =>
        have hle := runLength_le isNamePart cs
        simp only [name?, Option.ite_none_right_eq_some, Option.some.injEq] at h
        simp only [id, List.length_cons]
        omega
  some_of_append {a b n} h hle := by
    cases a with
    | nil =>
        cases b with
        | nil => cases h
        | cons c cs =>
            simp only [name?, List.nil_append, Option.ite_none_right_eq_some, Option.some.injEq] at h
            simp only [id, List.length_nil] at hle
            omega
    | cons c cs =>
        simp only [name?, List.cons_append, Option.ite_none_right_eq_some, Option.some.injEq] at h ⊢
        simp only [id, List.length_cons] at hle
        rwa [← runLength_of_append (b := b) (by omega)]
  none_of_append {a b} h := by
    cases a with
    | nil => rfl
    | cons c cs =>
        simp only [name?, List.cons_append, ite_eq_right_iff, reduceCtorEq, imp_false] at h ⊢
        exact h

/-- A number has a fraction if there is a digit behind the point. -/
theorem number?_eq_some {cs : List Char} {n : Nat} : number? cs = some n ↔
    runLength Char.isDigit cs ≠ 0 ∧
    ((∃ rest, cs.drop (runLength Char.isDigit cs) = '.' :: rest ∧ runLength Char.isDigit rest ≠ 0 ∧
        n = runLength Char.isDigit cs + 1 + runLength Char.isDigit rest) ∨
      ((∀ rest, cs.drop (runLength Char.isDigit cs) = '.' :: rest → runLength Char.isDigit rest = 0) ∧
        n = runLength Char.isDigit cs)) := by
  unfold number?
  grind

theorem number?_eq_none {cs : List Char} : number? cs = none ↔ runLength Char.isDigit cs = 0 := by
  unfold number?
  grind

theorem local_number? : Local number? id where
  size_le {cs n} h := by
    have hle := runLength_le Char.isDigit cs
    obtain ⟨_, ⟨rest, hrest, _, rfl⟩ | ⟨_, rfl⟩⟩ := number?_eq_some.mp h
    · have hlen := congrArg List.length hrest
      have hle' := runLength_le Char.isDigit rest
      simp only [List.length_drop, List.length_cons] at hlen
      simp only [id]
      omega
    · exact hle
  some_of_append {a b n} h hle := by
    obtain ⟨hw, h⟩ := number?_eq_some.mp h
    have hwle : runLength Char.isDigit (a ++ b) ≤ a.length := by
      simp only [id] at hle
      rcases h with ⟨_, _, _, rfl⟩ | ⟨_, rfl⟩ <;> omega
    rw [runLength_of_append hwle] at h hw hwle
    rw [List.drop_append_of_le_length hwle] at h
    refine number?_eq_some.mpr ⟨hw, ?_⟩
    rcases h with ⟨rest, hrest, hf, rfl⟩ | ⟨hrest, rfl⟩
    · simp only [id] at hle
      cases hd : a.drop (runLength Char.isDigit a) with
      | nil =>
          have hlen := congrArg List.length hd
          simp only [List.length_drop, List.length_nil] at hlen
          omega
      | cons d ds =>
          rw [hd, List.cons_append, List.cons.injEq] at hrest
          obtain ⟨rfl, rfl⟩ := hrest
          have hlen := congrArg List.length hd
          simp only [List.length_drop, List.length_cons] at hlen
          rw [runLength_of_append (a := ds) (by omega)] at hf ⊢
          exact .inl ⟨ds, rfl, hf, rfl⟩
    · refine .inr ⟨fun rest hd => ?_, rfl⟩
      exact runLength_eq_zero_of_append (hrest (rest ++ b) (by rw [hd, List.cons_append]))
  none_of_append h :=
    number?_eq_none.mpr (runLength_eq_zero_of_append (number?_eq_none.mp h))

theorem local_blank? : Local blank? id where
  size_le {cs n} h := by
    simp only [blank?, Option.ite_none_left_eq_some, Option.some.injEq] at h
    exact h.2 ▸ runLength_le isBlank cs
  some_of_append {a b n} h hle := by
    simp only [blank?, Option.ite_none_left_eq_some, Option.some.injEq] at h ⊢
    obtain ⟨hne, rfl⟩ := h
    rw [runLength_of_append hle] at hne ⊢
    exact ⟨hne, rfl⟩
  none_of_append {a b} h := by
    simp only [blank?, ite_eq_left_iff, reduceCtorEq, imp_false, not_not] at h ⊢
    exact runLength_eq_zero_of_append h

/-! ## Recognisers of what stands between marks -/

/-- A recogniser that stops at a mark needs nothing behind it. -/
theorem Local.of_take {f : List Char → Option Nat}
    (happend : ∀ {a b n}, f a = some n → f (a ++ b) = some n)
    (htake : ∀ {cs n}, f cs = some n → n ≤ cs.length ∧ f (cs.take n) = some n) : Local f id where
  size_le h := (htake h).1
  some_of_append {a b n} h hle := by
    simp only [id] at hle
    have hn := (htake h).2
    rw [List.take_append_of_le_length hle] at hn
    rw [← List.take_append_drop n a]
    exact happend hn
  none_of_append {a b} h := by
    cases ha : f a with
    | none => rfl
    | some n => rw [happend ha] at h; cases h

/-- So does one that looks for a mark first. -/
theorem Local.behind {f g : List Char → Option Nat} (hf : Local f id) (mark : List Char)
    (hmark : ∀ cs, g (mark ++ cs) = (f cs).map (· + mark.length))
    (hnone : ∀ cs, ¬ mark <+: cs → g cs = Option.none) : Local g id where
  size_le {cs n} h := by
    by_cases hp : mark <+: cs
    · obtain ⟨rest, rfl⟩ := hp
      rw [hmark] at h
      obtain ⟨m, hm, rfl⟩ := Option.map_eq_some_iff.mp h
      have hle := hf.size_le hm
      simp only [id, List.length_append] at hle ⊢
      omega
    · rw [hnone cs hp] at h
      cases h
  some_of_append {a b n} h hle := by
    by_cases hp : mark <+: a ++ b
    · obtain ⟨rest, hrest⟩ := hp
      rw [← hrest, hmark] at h
      obtain ⟨m, hm, rfl⟩ := Option.map_eq_some_iff.mp h
      simp only [id] at hle
      obtain ⟨rest', rfl⟩ := List.prefix_of_prefix_length_le ⟨rest, hrest⟩ (List.prefix_append a b) (by omega)
      rw [List.append_assoc, List.append_cancel_left_eq] at hrest
      subst hrest
      rw [List.length_append] at hle
      rw [hmark, hf.some_of_append hm (by simp only [id]; omega)]
      rfl
    · rw [hnone _ hp] at h
      cases h
  none_of_append {a b} h := by
    by_cases hp : mark <+: a
    · obtain ⟨rest, rfl⟩ := hp
      rw [List.append_assoc, hmark, Option.map_eq_none_iff] at h
      rw [hmark, hf.none_of_append h]
      rfl
    · exact hnone a hp

theorem untilQuote?_cons (c : Char) (cs : List Char) : untilQuote? (c :: cs) =
    if c = '"' then some 1
    else if c = '\n' then none
    else if c = '\\' then
      match cs with
      | [] => none
      | d :: ds => if d = '\n' then none else (untilQuote? ds).map (· + 2)
    else (untilQuote? cs).map (· + 1) :=
  (untilQuote?.eq_def (c :: cs)).trans rfl

theorem untilQuote?_append {a b : List Char} {n : Nat} (h : untilQuote? a = some n) :
    untilQuote? (a ++ b) = some n := by
  fun_induction untilQuote? a generalizing n with
  | case2 cs => simpa [untilQuote?_cons] using h
  | case6 d ds hd _ _ ih =>
      obtain ⟨m, hm, rfl⟩ := Option.map_eq_some_iff.mp h
      simp [untilQuote?_cons, hd, ih hm]
  | case7 c cs hq hl hb ih =>
      obtain ⟨m, hm, rfl⟩ := Option.map_eq_some_iff.mp h
      simp [untilQuote?_cons, hq, hl, hb, ih hm]
  | _ => cases h

theorem untilQuote?_take {cs : List Char} {n : Nat} (h : untilQuote? cs = some n) :
    n ≤ cs.length ∧ untilQuote? (cs.take n) = some n := by
  fun_induction untilQuote? cs generalizing n with
  | case2 cs =>
      cases h
      simp [untilQuote?_cons]
  | case6 d ds hd _ _ ih =>
      obtain ⟨m, hm, rfl⟩ := Option.map_eq_some_iff.mp h
      simp [untilQuote?_cons, hd, ih hm]
  | case7 c cs hq hl hb ih =>
      obtain ⟨m, hm, rfl⟩ := Option.map_eq_some_iff.mp h
      simp [untilQuote?_cons, hq, hl, hb, ih hm]
  | _ => cases h

theorem untilCommentEnd?_cons (c : Char) (cs : List Char) : untilCommentEnd? (c :: cs) =
    if c = '*' ∧ cs.head? = some '/' then some 2 else (untilCommentEnd? cs).map (· + 1) := by
  rw [untilCommentEnd?.eq_def]
  split <;> simp_all [List.head?_eq_some_iff]

theorem untilCommentEnd?_append {a b : List Char} {n : Nat} (h : untilCommentEnd? a = some n) :
    untilCommentEnd? (a ++ b) = some n := by
  induction a generalizing n with
  | nil => cases h
  | cons c cs ih =>
      by_cases hend : c = '*' ∧ cs.head? = some '/'
      · obtain ⟨rfl, hslash⟩ := hend
        obtain ⟨ds, rfl⟩ := List.head?_eq_some_iff.mp hslash
        simpa [untilCommentEnd?_cons] using h
      · rw [untilCommentEnd?_cons, if_neg hend] at h
        obtain ⟨m, hm, rfl⟩ := Option.map_eq_some_iff.mp h
        have hne : cs ≠ [] := by
          rintro rfl
          cases hm
        simp [untilCommentEnd?_cons, List.head?_append_of_ne_nil _ hne, hend, ih hm]

theorem untilCommentEnd?_take {cs : List Char} {n : Nat} (h : untilCommentEnd? cs = some n) :
    n ≤ cs.length ∧ untilCommentEnd? (cs.take n) = some n := by
  induction cs generalizing n with
  | nil => cases h
  | cons c cs ih =>
      rw [untilCommentEnd?_cons] at h
      by_cases hend : c = '*' ∧ cs.head? = some '/'
      · rw [if_pos hend] at h
        cases h
        obtain ⟨rfl, hslash⟩ := hend
        obtain ⟨ds, rfl⟩ := List.head?_eq_some_iff.mp hslash
        simp [untilCommentEnd?_cons]
      · rw [if_neg hend] at h
        obtain ⟨m, hm, rfl⟩ := Option.map_eq_some_iff.mp h
        obtain ⟨hle, htake⟩ := ih hm
        have hpos : m ≠ 0 := by
          rintro rfl
          cases htake
        simp [untilCommentEnd?_cons, htake, hle, List.head?_take, hpos, hend]

theorem local_string? : Local string? id := by
  refine (Local.of_take untilQuote?_append untilQuote?_take).behind ['"'] (fun cs => rfl) fun cs h => ?_
  unfold string?
  split
  · simp at h
  · rfl

theorem local_delimitedComment? : Local delimitedComment? id := by
  refine (Local.of_take untilCommentEnd?_append untilCommentEnd?_take).behind ['/', '*'] (fun cs => rfl)
    fun cs h => ?_
  unfold delimitedComment?
  split
  · simp at h
  · rfl

theorem local_run (p : Char → Bool) : Local (fun cs => some (runLength p cs)) id where
  size_le {cs n} h := Option.some.inj h ▸ runLength_le p cs
  some_of_append {a b n} h hle := by
    obtain rfl := Option.some.inj h
    exact congrArg some (runLength_of_append hle).symm
  none_of_append h := by cases h

theorem local_lineComment? : Local lineComment? id := by
  refine (local_run (· != '\n')).behind ['/', '/'] (fun cs => ?_) fun cs h => ?_
  · simp [lineComment?, Nat.add_comm]
  · unfold lineComment?
    split
    · simp at h
    · rfl

theorem local_literal (t : Terminal) (s : String) :
    Local (fun cs => if s.toList.isPrefixOf cs then some (t, s.length) else none) Prod.snd where
  size_le {cs x} h := by
    simp only [Option.ite_none_right_eq_some, List.isPrefixOf_iff_prefix, Option.some.injEq] at h
    obtain ⟨hp, rfl⟩ := h
    simpa [String.length_toList] using hp.length_le
  some_of_append {a b x} h hle := by
    simp only [Option.ite_none_right_eq_some, List.isPrefixOf_iff_prefix, Option.some.injEq] at h ⊢
    obtain ⟨hp, rfl⟩ := h
    exact ⟨List.prefix_of_prefix_length_le hp (List.prefix_append a b) (by rwa [String.length_toList]), rfl⟩
  none_of_append {a b} h := by
    simp only [ite_eq_right_iff, reduceCtorEq, imp_false, List.isPrefixOf_iff_prefix] at h ⊢
    exact fun hp => h (hp.trans (List.prefix_append a b))

/-- The literal of a terminal at the front. -/
def literalAt (cs : List Char) (t : Terminal) : Option (Terminal × Nat) :=
  match t.literal? with
  | some s => if s.toList.isPrefixOf cs then some (t, s.length) else none
  | none => none

theorem local_literalAt (t : Terminal) : Local (literalAt · t) Prod.snd := by
  unfold literalAt
  cases t.literal? with
  | none => exact .none
  | some s => exact local_literal t s

theorem local_punctuation? : Local punctuation? Prod.snd := by
  have hall (ts : List Terminal) : Local (fun cs => ts.findSome? (literalAt cs)) Prod.snd := by
    induction ts with
    | nil => exact .none
    | cons t ts ih =>
        have hcons (cs : List Char) : (t :: ts).findSome? (literalAt cs) =
            (literalAt cs t).or (ts.findSome? (literalAt cs)) := by
          rw [List.findSome?_cons]
          cases literalAt cs t <;> rfl
        rw [funext hcons]
        exact (local_literalAt t).or ih
  exact hall Terminal.punctuation

/-! ## Lexemes -/

theorem scan_eq (cs : List Char) : scan cs =
    ((name? cs).map fun n => ((keyword? (cs.take n)).getD .name, n)).or
      (((number? cs).map fun n => (.number, n)).or
        (((string? cs).map fun n => (.string, n)).or
          (((delimitedComment? cs).map fun n => (.delimitedComment, n)).or
            (((lineComment? cs).map fun n => (.lineComment, n)).or
              (((blank? cs).map fun n => (.ws, n)).or (punctuation? cs)))))) := by
  unfold scan
  cases name? cs <;> cases number? cs <;> cases string? cs <;> cases delimitedComment? cs <;>
    cases lineComment? cs <;> cases blank? cs <;> rfl

theorem local_scan : Local scan Prod.snd := by
  rw [funext scan_eq]
  exact (local_name?.label fun cs => (keyword? cs).getD .name).or <|
    (local_number?.label fun _ => .number).or <| (local_string?.label fun _ => .string).or <|
    (local_delimitedComment?.label fun _ => .delimitedComment).or <|
    (local_lineComment?.label fun _ => .lineComment).or <|
    (local_blank?.label fun _ => .ws).or local_punctuation?

theorem lexeme_of_some {c : Char} {cs : List Char} {t : Terminal} {n : Nat} (h : scan (c :: cs) = some (t, n)) :
    lexeme c cs = (.terminal t, n - 1) := by
  simp [lexeme, h]

theorem lexeme_of_none {c : Char} {cs : List Char} (h : scan (c :: cs) = none) :
    lexeme c cs = (.unlexable, unlexableLength cs) := by
  simp [lexeme, h]

theorem unlexableLength_le (cs : List Char) : unlexableLength cs ≤ cs.length := by
  induction cs with
  | nil => exact Nat.le_refl 0
  | cons c cs ih =>
      rw [unlexableLength, List.length_cons]
      split <;> omega

theorem lexeme_le (c : Char) (cs : List Char) : (lexeme c cs).2 ≤ cs.length := by
  cases h : scan (c :: cs) with
  | some x =>
      have hle := local_scan.size_le h
      rw [lexeme_of_some h]
      simp only [List.length_cons] at hle ⊢
      omega
  | none =>
      rw [lexeme_of_none h]
      exact unlexableLength_le cs

/-- A run of characters that begin nothing ends where something begins. -/
theorem scan_of_unlexableLength {u w : List Char} (h : unlexableLength (u ++ w) = u.length) (hw : w ≠ []) :
    (scan w).isSome := by
  induction u with
  | nil =>
      cases w with
      | nil => exact absurd rfl hw
      | cons c cs =>
          rw [List.nil_append, unlexableLength] at h
          split at h
          · assumption
          · rw [List.length_nil] at h
            omega
  | cons c u ih =>
      rw [List.cons_append, unlexableLength] at h
      split at h
      · cases h
      · exact ih (by rw [List.length_cons] at h; omega)

/-- Such a run stays as it is if it is cut off, or cut behind what begins after it. -/
theorem unlexableLength_cut {u v b : List Char} (h : unlexableLength (u ++ v ++ b) = u.length)
    (hv : v = [] ∨ (scan v).isSome) : unlexableLength (u ++ v) = u.length := by
  induction u with
  | nil =>
      rcases hv with rfl | hv
      · rfl
      · cases v with
        | nil => rfl
        | cons c cs => simp [unlexableLength, hv]
  | cons c u ih =>
      rw [List.cons_append, List.cons_append, unlexableLength] at h
      split at h
      · cases h
      · rename_i hscan
        have hnone := local_scan.none_of_append (a := c :: (u ++ v)) (Option.not_isSome_iff_eq_none.mp hscan)
        rw [List.cons_append, unlexableLength, hnone]
        rw [List.length_cons] at h ⊢
        simp only [Option.isSome_none, Bool.false_eq_true, ↓reduceIte]
        rw [ih (by omega), Nat.add_comm]

theorem lexemes_cons (c : Char) (cs : List Char) : lexemes (c :: cs) =
    ((lexeme c cs).1, c :: cs.take (lexeme c cs).2) :: lexemes (cs.drop (lexeme c cs).2) := by
  rw [lexemes]

theorem lexeme_cut {c : Char} {u v b : List Char} (h : (lexeme c (u ++ v ++ b)).2 = u.length)
    (hv : v = [] ∨ ((scan (v ++ b)).isSome → (scan v).isSome)) :
    lexeme c (u ++ v) = lexeme c (u ++ v ++ b) := by
  cases hs : scan (c :: (u ++ v ++ b)) with
  | some x =>
      obtain ⟨t, n⟩ := x
      have hn : n - 1 = u.length := by rwa [lexeme_of_some hs] at h
      have hs' := local_scan.some_of_append (a := c :: (u ++ v)) hs
        (by simp only [List.length_cons, List.length_append]; omega)
      rw [lexeme_of_some hs, lexeme_of_some hs']
  | none =>
      have hs' := local_scan.none_of_append (a := c :: (u ++ v)) hs
      have hrun : unlexableLength (u ++ v ++ b) = u.length := by rwa [lexeme_of_none hs] at h
      have hv' : v = [] ∨ (scan v).isSome := by
        by_cases hnil : v = []
        · exact .inl hnil
        · have hnext := scan_of_unlexableLength (w := v ++ b) (by rwa [← List.append_assoc]) (by simp [hnil])
          exact .inr (hv.resolve_left hnil hnext)
      rw [lexeme_of_none hs, lexeme_of_none hs', hrun, unlexableLength_cut hrun hv']

/-- What begins the text is no longer than the lexemes before the cut. -/
theorem scan_of_lexemes {v b : List Char} {ls ls' : List (Token.Kind × List Char)}
    (h : lexemes (v ++ b) = ls ++ ls') (hv : ls.flatMap Prod.snd = v) :
    v = [] ∨ ((scan (v ++ b)).isSome → (scan v).isSome) := by
  cases v with
  | nil => exact .inl rfl
  | cons c cs =>
      refine .inr fun hs => ?_
      obtain ⟨⟨t, n⟩, hs⟩ := Option.isSome_iff_exists.mp hs
      cases ls with
      | nil => cases hv
      | cons l ls =>
          rw [List.cons_append, lexemes_cons, List.cons_append, List.cons.injEq] at h
          have hsize : (lexeme c (cs ++ b)).2 = n - 1 := by
            rw [lexeme_of_some (List.cons_append ▸ hs)]
          have hle := lexeme_le c (cs ++ b)
          have hlen := congrArg List.length hv
          rw [← h.1] at hlen
          simp only [List.flatMap_cons, List.length_append, List.length_cons, List.length_take] at hlen
          have hlen' : n ≤ (c :: cs).length := by
            rw [List.length_cons]
            rw [List.length_append] at hle
            omega
          rw [local_scan.some_of_append hs hlen']
          rfl

/-- The lexemes before a cut between lexemes stay as they are. -/
theorem lexemes_cut {a b : List Char} {ls ls' : List (Token.Kind × List Char)}
    (h : lexemes (a ++ b) = ls ++ ls') (ha : ls.flatMap Prod.snd = a) : lexemes a = ls := by
  induction ls generalizing a with
  | nil =>
      subst ha
      exact lexemes.eq_1
  | cons l ls ih =>
      cases hab : a ++ b with
      | nil =>
          rw [hab, lexemes] at h
          cases h
      | cons c cs =>
          rw [hab, lexemes_cons, List.cons_append, List.cons.injEq] at h
          obtain ⟨rfl, hrest⟩ := h
          -- The first lexeme cuts the text behind `u`; the others before the cut make up `v`.
          obtain ⟨u, w, rfl, hu⟩ : ∃ u w, cs = u ++ w ∧ u.length = (lexeme c cs).2 :=
            ⟨cs.take (lexeme c cs).2, cs.drop (lexeme c cs).2, (List.take_append_drop ..).symm,
              by rw [List.length_take, Nat.min_eq_left (lexeme_le c cs)]⟩
          rw [← hu, List.drop_left] at hrest
          rw [← hu, List.take_left] at ha ⊢
          obtain ⟨v, hv⟩ : ∃ v, ls.flatMap Prod.snd = v := ⟨_, rfl⟩
          rw [List.flatMap_cons, hv] at ha
          subst ha
          obtain rfl : v ++ b = w := by simpa using hab
          have hls := ih hrest hv
          have hcut := lexeme_cut (u := u) (v := v) (b := b) (c := c) (by rw [List.append_assoc, hu])
            (scan_of_lexemes hrest hv)
          rw [List.append_assoc] at hcut
          rw [List.cons_append, lexemes_cons, hcut, ← hu, List.take_left, List.drop_left, hls]

/-- The tokens up to one of them are the lexemes up to its end. -/
theorem exists_of_place_eq {p : Position} {xs : List (Token.Kind × List Char)} {us vs : List Token} {token : Token}
    (h : place p xs = us ++ token :: vs) :
    ∃ ls ls', xs = ls ++ ls' ∧ place p ls = us ++ [token] ∧ token.stop = p.after (ls.flatMap Prod.snd) := by
  induction us generalizing p xs with
  | nil =>
      cases xs with
      | nil => cases h
      | cons x xs =>
          obtain ⟨rfl, _⟩ := List.cons.inj h
          exact ⟨[x], xs, rfl, rfl, by simp⟩
  | cons u us ih =>
      cases xs with
      | nil => cases h
      | cons x xs =>
          obtain ⟨rfl, hrest⟩ := List.cons.inj h
          obtain ⟨ls, ls', rfl, hls, hstop⟩ := ih hrest
          refine ⟨x :: ls, ls', rfl, ?_, ?_⟩
          · rw [place, hls]
            rfl
          · rw [hstop, List.flatMap_cons, Position.after_append]

end Lexer

/-! ## Tokens -/

/-- A text up to an offset. -/
def upTo (text : String) (offset : Nat) : String :=
  String.ofList (text.toList.take offset)

/-- A text that is cut at the end of a token has the tokens up to there. -/
theorem tokenize_upTo {text : String} {us vs : List Token} {token : Token}
    (h : tokenize text = us ++ token :: vs) : tokenize (upTo text token.stop.offset) = us ++ [token] := by
  obtain ⟨ls, ls', hlex, hplace, hstop⟩ := Lexer.exists_of_place_eq h
  have htext : text.toList = ls.flatMap Prod.snd ++ ls'.flatMap Prod.snd := by
    rw [← List.flatMap_append, ← hlex, Lexer.flatMap_lexemes]
  have hoffset : token.stop.offset = (ls.flatMap Prod.snd).length := by
    rw [hstop, Position.offset_after]
    exact Nat.zero_add _
  have hcut : (upTo text token.stop.offset).toList = ls.flatMap Prod.snd := by
    rw [upTo, String.toList_ofList, hoffset, htext, List.take_left]
  rw [tokenize, hcut, Lexer.lexemes_cut (htext ▸ hlex) rfl, hplace]

end Typeahead
