import Typeahead.Proofs.Cursor.Cut
import Typeahead.Proofs.Text.Lines
import Typeahead.Proofs.Token.Boundary

/-!
The token at a caret, by offsets. A caret inside a text has an offset; the search in the tree and the scan of the stream
come to what the offset alone says, together with which tokens the parser kept.
-/

namespace Typeahead

open Lexer

/-! ## Offsets -/

namespace Position

/-- The place of a caret inside a text is counted from the place of the text. -/
theorem after_take_offset {cs line : List Char} {n column : Nat} (p : Position)
    (hline : (cs.splitOn '\n')[n]? = some line) (hcolumn : column ≤ line.length) :
    p.after (cs.take (Text.offset cs n column)) =
      ⟨p.offset + Text.offset cs n column, p.line + n, if n = 0 then p.column + column else column + 1⟩ := by
  induction cs generalizing p n column line with
  | nil =>
      cases n with
      | zero =>
          cases hline
          obtain rfl : column = 0 := Nat.le_zero.mp hcolumn
          rfl
      | succ n => cases hline
  | cons c cs ih =>
      by_cases hc : c = '\n'
      · subst hc
        rw [Text.splitOn_mark] at hline
        cases n with
        | zero =>
            cases hline
            obtain rfl : column = 0 := Nat.le_zero.mp hcolumn
            rfl
        | succ n =>
            rw [Text.offset_newline, List.take_succ_cons, after_cons, ih _ hline hcolumn]
            simp only [next, ↓reduceIte, Nat.add_one_ne_zero, mk.injEq]
            split <;> omega
      · obtain ⟨piece, pieces, hrest, hpieces⟩ := Text.splitOn_of_ne hc cs
        have hnext : p.next c = ⟨p.offset + 1, p.line, p.column + 1⟩ := by simp [next, hc]
        rw [hpieces] at hline
        rw [hrest] at ih
        cases n with
        | zero =>
            cases hline
            rw [Text.offset_zero]
            cases column with
            | zero => rfl
            | succ column =>
                have hstep := ih (n := 0) (p.next c) rfl (Nat.le_of_succ_le_succ hcolumn)
                rw [Text.offset_zero] at hstep
                rw [List.take_succ_cons, after_cons, hstep, hnext]
                simp only [↓reduceIte, mk.injEq, true_and]
                omega
        | succ n =>
            rw [Text.offset_cons hc, List.take_succ_cons, after_cons, ih (n := n + 1) _ hline hcolumn,
              hnext]
            simp only [↓reduceIte, Nat.add_one_ne_zero, mk.injEq, and_true]
            omega

/-- A caret comes before another place or stands at it exactly if that place does not come before it. -/
theorem le_caret_iff {p q : Position} : p.caret.le q.caret ↔ ¬ q.Before p := by
  rw [Caret.le_iff]
  simp only [caret, Before]
  omega

end Position

section Places

variable {cs : List Char} {i j : Nat}

theorem before_placeAt (h : i < j) (hj : j ≤ cs.length) : (placeAt cs i).Before (placeAt cs j) := by
  rw [placeAt_eq hj, placeAt_eq (by omega)]
  obtain ⟨n, rfl⟩ := Nat.exists_eq_add_of_lt h
  rw [Nat.add_assoc, List.take_add, Position.after_append]
  refine Position.before_after _ (List.ne_nil_of_length_pos ?_)
  rw [List.length_take, List.length_drop]
  omega

/-- Carets come in the order of their offsets. -/
theorem le_placeAt_iff (hi : i ≤ cs.length) (hj : j ≤ cs.length) :
    (placeAt cs i).caret.le (placeAt cs j).caret ↔ i ≤ j := by
  rw [Position.le_caret_iff]
  constructor
  · intro h
    by_contra hlt
    exact h (before_placeAt (by omega) hi)
  · intro h hbefore
    rcases Nat.eq_or_lt_of_le h with rfl | hlt
    · unfold Position.Before at hbefore
      omega
    · have hafter := before_placeAt hlt hj
      unfold Position.Before at hbefore hafter
      omega

theorem placeAt_offset {line : List Char} {n column : Nat} (hline : (cs.splitOn '\n')[n]? = some line)
    (hcolumn : column ≤ line.length) :
    Text.offset cs n column ≤ cs.length ∧ (placeAt cs (Text.offset cs n column)).caret = ⟨n + 1, column⟩ := by
  have hplace := Position.after_take_offset Position.start hline hcolumn
  have hle : Text.offset cs n column ≤ cs.length := by
    have hoffset := congrArg Position.offset hplace
    rw [Position.offset_after, List.length_take] at hoffset
    simp only at hoffset
    omega
  refine ⟨hle, ?_⟩
  rw [placeAt_eq hle, hplace]
  simp only [Position.caret, Position.start, Caret.mk.injEq]
  split <;> omega

end Places

/-! ## Tokens at an offset -/

section Tokens

variable {text : String} {token : Token} {us vs : List Token} {o : Nat}

theorem split_of_mem_tokenize (h : token ∈ tokenize text) :
    ∃ before behind, text.toList = before ++ (token.text.toList ++ behind) ∧
      token.start = Position.start.after before := by
  obtain ⟨ls, cs, ls', hlex, htext, hstart, _⟩ := exists_of_mem_place h
  refine ⟨ls.flatMap Prod.snd, ls'.flatMap Prod.snd, ?_, hstart⟩
  rw [← flatMap_lexemes text.toList, hlex, List.flatMap_append, List.flatMap_cons, htext, String.toList_ofList]

theorem start_lt_stop (h : token ∈ tokenize text) : token.start.offset < token.stop.offset := by
  have hne : token.text.toList ≠ [] := by simpa [Token.isMissing] using isMissing_of_mem_tokenize h
  have hpos := List.length_pos_iff.mpr hne
  rw [stop_of_mem_tokenize h, Position.offset_after]
  omega

/-- The place of an offset within a token is counted from the start of the token. -/
theorem placeAt_within (h : token ∈ tokenize text) (hfrom : token.start.offset ≤ o) (hto : o ≤ token.stop.offset) :
    o ≤ text.toList.length ∧
      placeAt text.toList o = token.start.after (token.text.toList.take (o - token.start.offset)) := by
  obtain ⟨before, behind, hsplit, hstart⟩ := split_of_mem_tokenize h
  have hoffset : token.start.offset = before.length := by
    rw [hstart, Position.offset_after]
    exact Nat.zero_add _
  rw [stop_of_mem_tokenize h, Position.offset_after] at hto
  obtain ⟨d, rfl⟩ := Nat.exists_eq_add_of_le hfrom
  have hle : token.start.offset + d ≤ text.toList.length := by
    rw [hsplit, List.length_append, List.length_append]
    omega
  refine ⟨hle, ?_⟩
  rw [placeAt_eq hle, hsplit, hoffset, Nat.add_sub_cancel_left, List.take_length_add_append,
    List.take_append_of_le_length (by omega), hstart, Position.after_append]

/-- A caret touches a token exactly if its offset is none outside of the token. -/
theorem touches_placeAt_iff (h : token ∈ tokenize text) (ho : o ≤ text.toList.length) :
    token.touches (placeAt text.toList o).caret ↔ token.start.offset ≤ o ∧ o ≤ token.stop.offset := by
  have hlt := start_lt_stop h
  obtain ⟨hstartLe, hstart⟩ := placeAt_within h (Nat.le_refl _) (Nat.le_of_lt hlt)
  obtain ⟨hstopLe, hstop⟩ := placeAt_within h (Nat.le_of_lt hlt) (Nat.le_refl _)
  rw [Nat.sub_self, List.take_zero, Position.after_nil] at hstart
  have hlength : token.stop.offset - token.start.offset = token.text.toList.length := by
    rw [stop_of_mem_tokenize h, Position.offset_after, Nat.add_sub_cancel_left]
  rw [hlength, List.take_length, ← stop_of_mem_tokenize h] at hstop
  rw [Token.touches, Bool.and_eq_true, ← le_placeAt_iff hstartLe ho, ← le_placeAt_iff ho hstopLe, hstart, hstop]

theorem stop_le_start (h : tokenize text = us ++ token :: vs) :
    (∀ u ∈ us, u.stop.offset ≤ token.start.offset) ∧ ∀ v ∈ vs, token.stop.offset ≤ v.start.offset := by
  have hpw := pairwise_tokenize_after text
  rw [h, List.pairwise_append, List.pairwise_cons] at hpw
  constructor
  · intro u hu
    obtain ⟨cs, hcs⟩ := hpw.2.2 u hu token List.mem_cons_self
    rw [hcs, Position.offset_after]
    omega
  · intro v hv
    obtain ⟨cs, hcs⟩ := hpw.2.1.1 v hv
    rw [hcs, Position.offset_after]
    omega

theorem stop_eq_start {a b : Token} (h : tokenize text = us ++ a :: b :: vs) : a.stop = b.start := by
  have hchain := isChain_place Position.start (lexemes text.toList)
  rw [← tokenize, h, List.isChain_append_cons_cons] at hchain
  exact hchain.2.1

theorem Lexer.exists_place_around {p : Position} {xs : List (Token.Kind × List Char)} (hfrom : p.offset ≤ o)
    (hto : o < p.offset + (xs.flatMap Prod.snd).length) :
    ∃ us token vs, place p xs = us ++ token :: vs ∧ token.start.offset ≤ o ∧ o < token.stop.offset := by
  induction xs generalizing p with
  | nil => simp at hto; omega
  | cons x xs ih =>
      rw [place]
      by_cases hx : o < p.offset + x.2.length
      · exact ⟨[], _, _, rfl, hfrom, by simpa using hx⟩
      · rw [List.flatMap_cons, List.length_append] at hto
        obtain ⟨us, token, vs, hsplit, hstart, hstop⟩ :=
          ih (p := p.after x.2) (by simpa using hx) (by rw [Position.offset_after]; omega)
        exact ⟨_ :: us, token, vs, by rw [hsplit, List.cons_append], hstart, hstop⟩

end Tokens

/-! ## The cursor -/

namespace Cursor

variable {text : String} {token : Token} {us vs : List Token} {o : Nat} {c : Caret}

/-- Whether the parser kept a token: it is not hidden, and not reported as unexpected. -/
def Kept (text : String) (token : Token) : Prop :=
  token.kind.hidden = false ∧ .unexpected token ∉ (parse text).issues

instance decidableKept (text : String) (token : Token) : Decidable (Kept text token) :=
  inferInstanceAs (Decidable (_ ∧ _))

theorem kept_eq_filter_kept (text : String) : kept (outcomesOf text) = (tokenize text).filter (Kept text ·) := by
  rw [kept_outcomesOf, significant, List.filter_filter]
  refine List.filter_congr fun u _ => ?_
  cases hu : u.kind.hidden <;> simp [Kept, hu]

theorem touching_of_kept (h : tokenize text = us ++ token :: vs) (ht : token.touches c) (hk : Kept text token)
    (hus : ∀ u ∈ us, Kept text u → ¬ u.touches c) : touching (parse text) c = inToken token us.length c := by
  refine touching_of_some ?_ h
  have hnone : first? c (us.filter (Kept text ·)) = none := by
    rw [first?, List.find?_eq_none]
    intro u hu
    obtain ⟨hu, hku⟩ := List.mem_filter.mp hu
    exact hus u hu (of_decide_eq_true hku)
  rw [kept_eq_filter_kept, h, List.filter_append, List.filter_cons_of_pos (by simpa using hk), first?_append, hnone,
    Option.none_or]
  exact List.find?_cons_of_pos ht

theorem scan_of_touches (ht : token.touches c) (hus : ∀ u ∈ us, ¬ u.touches c) (i : Nat)
    (before : Option (Nat × Token)) : scan c i before (us ++ token :: vs) = inToken token (i + us.length) c := by
  induction us generalizing i before with
  | nil => simp [scan, ht]
  | cons u us ih =>
      rw [List.forall_mem_cons] at hus
      rw [List.cons_append, scan, if_neg hus.1, ih hus.2, List.length_cons, Nat.add_assoc, Nat.add_comm 1]

theorem touching_of_not_kept (h : tokenize text = us ++ token :: vs) (ht : token.touches c)
    (hus : ∀ u ∈ us, ¬ u.touches c) (hk : ∀ u ∈ tokenize text, u.touches c → ¬ Kept text u) :
    touching (parse text) c = inToken token us.length c := by
  have hnone : first? c (kept (outcomesOf text)) = none := by
    rw [kept_eq_filter_kept, first?, List.find?_eq_none]
    intro u hu htouches
    obtain ⟨hu, hku⟩ := List.mem_filter.mp hu
    exact hk u hu htouches (of_decide_eq_true hku)
  rw [touching_of_none hnone, h, scan_of_touches ht hus, Nat.zero_add]

/-- A token that a caret touches is at the caret if it touches no other one, kept or not. -/
theorem touching_of_alone (h : tokenize text = us ++ token :: vs) (ht : token.touches c)
    (hus : ∀ u ∈ us, ¬ u.touches c) (hvs : ∀ v ∈ vs, ¬ v.touches c) :
    touching (parse text) c = inToken token us.length c := by
  by_cases hk : Kept text token
  · exact touching_of_kept h ht hk fun u hu _ => hus u hu
  · refine touching_of_not_kept h ht hus fun u hu htouches => ?_
    rw [h, List.mem_append, List.mem_cons] at hu
    rcases hu with hu | rfl | hu
    · exact absurd htouches (hus u hu)
    · exact hk
    · exact absurd htouches (hvs u hu)

/-- What has been typed of a token before an offset. -/
def typedBefore (o : Nat) (token : Token) : String :=
  if token.isName then String.ofList (token.text.toList.take (o - token.start.offset)) else ""

theorem inToken_placeAt (h : token ∈ tokenize text) (hfrom : token.start.offset ≤ o) (hto : o ≤ token.stop.offset)
    (k : Nat) : inToken token k (placeAt text.toList o).caret = ⟨some token, k, typedBefore o token⟩ := by
  cases hn : token.isName with
  | false => simp [inToken, typedBefore, hn]
  | true =>
      -- No line ends in a name, so the caret is on its line.
      have hline : '\n' ∉ token.text.toList.take (o - token.start.offset) := by
        obtain ⟨d, ds, hname, hd, hds⟩ := name_of_mem_tokenize h hn
        intro hmem
        have hmem := List.mem_of_mem_take hmem
        rw [hname, List.mem_cons] at hmem
        rcases hmem with rfl | hmem
        · exact absurd hd (by decide)
        · exact absurd (hds _ hmem) (by decide)
      have hlength : (token.text.toList.take (o - token.start.offset)).length = o - token.start.offset := by
        rw [stop_of_mem_tokenize h, Position.offset_after] at hto
        rw [List.length_take]
        omega
      rw [(placeAt_within h hfrom hto).2, after_of_notMem _ hline, hlength]
      have hcolumn : (((token.start.column + (o - token.start.offset) : Nat) : Int) - 1 -
          (token.start.column - 1)).toNat = o - token.start.offset := by omega
      simp only [inToken, typedBefore, hn, Position.caret, hcolumn, beq_self_eq_true, Bool.and_self, if_true]

/-- The token that the caret at an offset belongs to, with its index. At the border of two tokens it is the first one
that the parser kept, or else the one before. -/
inductive Belongs (text : String) : Nat → Nat → Token → Prop
  | inside {us vs : List Token} {token : Token} {o : Nat} : tokenize text = us ++ token :: vs →
      token.start.offset < o → o < token.stop.offset → Belongs text o us.length token
  | behind {us vs : List Token} {a b : Token} : tokenize text = us ++ a :: b :: vs →
      Kept text a ∨ ¬ Kept text b → Belongs text a.stop.offset us.length a
  | before {us vs : List Token} {a b : Token} : tokenize text = us ++ a :: b :: vs →
      ¬ Kept text a → Kept text b → Belongs text a.stop.offset (us.length + 1) b
  | first {vs : List Token} {token : Token} : tokenize text = token :: vs → Belongs text 0 0 token
  | last {us : List Token} {token : Token} : tokenize text = us ++ [token] →
      Belongs text text.length us.length token

theorem exists_belongs (hne : text ≠ "") (ho : o ≤ text.length) : ∃ k token, Belongs text o k token := by
  rcases Nat.eq_or_lt_of_le ho with rfl | hlt
  · rcases (tokenize text).eq_nil_or_concat' with hnil | ⟨us, token, hsplit⟩
    · have hall := flatMap_text_place Position.start (lexemes text.toList)
      rw [flatMap_lexemes, ← tokenize, hnil] at hall
      exact absurd (String.toList_eq_nil_iff.mp hall.symm) hne
    · exact ⟨_, _, .last hsplit⟩
  · have hto : o < Position.start.offset + ((lexemes text.toList).flatMap Prod.snd).length := by
      rw [flatMap_lexemes, String.length_toList]
      exact Nat.lt_of_lt_of_eq hlt (Nat.zero_add _).symm
    obtain ⟨us, token, vs, hsplit, hstart, hstop⟩ := exists_place_around (Nat.zero_le o) hto
    rw [← tokenize] at hsplit
    rcases Nat.eq_or_lt_of_le hstart with rfl | hstart
    · -- The offset is where the token starts, so it is the start of the text or the end of the token before.
      rcases us.eq_nil_or_concat' with rfl | ⟨us, a, rfl⟩
      · have hzero : token.start = Position.start :=
          head?_place token (by rw [← tokenize, hsplit]; rfl)
        rw [hzero]
        exact ⟨_, _, .first hsplit⟩
      · rw [List.append_assoc, List.singleton_append] at hsplit
        rw [← stop_eq_start hsplit]
        by_cases hk : ¬ Kept text a ∧ Kept text token
        · exact ⟨_, _, .before hsplit hk.1 hk.2⟩
        · exact ⟨_, _, .behind hsplit (by tauto)⟩
    · exact ⟨_, _, .inside hsplit hstart hstop⟩

theorem not_touches_placeAt (h : token ∈ tokenize text) (ho : o ≤ text.length)
    (hout : token.stop.offset < o ∨ o < token.start.offset) : ¬ token.touches (placeAt text.toList o).caret := by
  rw [touches_placeAt_iff h (by rwa [String.length_toList])]
  omega

/-- A caret that is not at the border of two tokens. -/
theorem touching_of_within (h : tokenize text = us ++ token :: vs) (ho : o ≤ text.length)
    (hfrom : token.start.offset ≤ o) (hto : o ≤ token.stop.offset) (hus : us = [] ∨ token.start.offset < o)
    (hvs : vs = [] ∨ o < token.stop.offset) :
    touching (parse text) (placeAt text.toList o).caret = ⟨some token, us.length, typedBefore o token⟩ := by
  have hmem : ∀ u ∈ us ++ token :: vs, u ∈ tokenize text := fun u hu => h ▸ hu
  have htoken := hmem token (by simp)
  obtain ⟨hbefore, hbehind⟩ := stop_le_start h
  rw [← inToken_placeAt htoken hfrom hto]
  refine touching_of_alone h ?_ (fun u hu => ?_) fun v hv => ?_
  · rw [touches_placeAt_iff htoken (by rwa [String.length_toList])]
    exact ⟨hfrom, hto⟩
  · refine not_touches_placeAt (hmem u (by simp [hu])) ho (.inl ?_)
    have hle := hbefore u hu
    have hlt := hus.resolve_left (List.ne_nil_of_mem hu)
    omega
  · refine not_touches_placeAt (hmem v (by simp [hv])) ho (.inr ?_)
    have hle := hbehind v hv
    have hlt := hvs.resolve_left (List.ne_nil_of_mem hv)
    omega

/-- A caret at the border of two tokens touches these and no other. -/
theorem touches_border {a b : Token} (h : tokenize text = us ++ a :: b :: vs) :
    let c := (placeAt text.toList a.stop.offset).caret
    (a.touches c ∧ b.touches c) ∧ (∀ u ∈ us, ¬ u.touches c) ∧ ∀ v ∈ vs, ¬ v.touches c := by
  have hmem : ∀ u ∈ us ++ a :: b :: vs, u ∈ tokenize text := fun u hu => h ▸ hu
  have ha := hmem a (by simp)
  have hb := hmem b (by simp)
  have halt := start_lt_stop ha
  have hblt := start_lt_stop hb
  have hab : a.stop.offset = b.start.offset := congrArg Position.offset (stop_eq_start h)
  have hle := (placeAt_within ha (Nat.le_of_lt halt) (Nat.le_refl _)).1
  refine ⟨⟨?_, ?_⟩, fun u hu => ?_, fun v hv => ?_⟩
  · rw [touches_placeAt_iff ha hle]
    omega
  · rw [touches_placeAt_iff hb hle]
    omega
  · have hbefore := (stop_le_start h).1 u hu
    rw [touches_placeAt_iff (hmem u (by simp [hu])) hle]
    omega
  · have h' : tokenize text = (us ++ [a]) ++ b :: vs := by simp [h]
    have hbehind := (stop_le_start h').2 v hv
    rw [touches_placeAt_iff (hmem v (by simp [hv])) hle]
    omega

theorem touching_behind {a b : Token} (h : tokenize text = us ++ a :: b :: vs) (hk : Kept text a ∨ ¬ Kept text b) :
    touching (parse text) (placeAt text.toList a.stop.offset).caret =
      ⟨some a, us.length, typedBefore a.stop.offset a⟩ := by
  have ha : a ∈ tokenize text := by simp [h]
  obtain ⟨⟨hta, htb⟩, hus, hvs⟩ := touches_border h
  rw [← inToken_placeAt ha (Nat.le_of_lt (start_lt_stop ha)) (Nat.le_refl _)]
  by_cases hka : Kept text a
  · exact touching_of_kept h hta hka fun u hu _ => hus u hu
  · refine touching_of_not_kept h hta hus fun u hu htouches => ?_
    rw [h, List.mem_append, List.mem_cons, List.mem_cons] at hu
    rcases hu with hu | rfl | rfl | hu
    · exact absurd htouches (hus u hu)
    · exact hka
    · exact hk.resolve_left hka
    · exact absurd htouches (hvs u hu)

theorem touching_before {a b : Token} (h : tokenize text = us ++ a :: b :: vs) (ha : ¬ Kept text a)
    (hb : Kept text b) :
    touching (parse text) (placeAt text.toList a.stop.offset).caret =
      ⟨some b, us.length + 1, typedBefore a.stop.offset b⟩ := by
  have hmem : b ∈ tokenize text := by simp [h]
  have hab : a.stop.offset = b.start.offset := congrArg Position.offset (stop_eq_start h)
  have hlt := start_lt_stop hmem
  have h' : tokenize text = (us ++ [a]) ++ b :: vs := by simp [h]
  obtain ⟨⟨_, htb⟩, hus, _⟩ := touches_border h
  have hnone : ∀ u ∈ us ++ [a], Kept text u → ¬ u.touches (placeAt text.toList a.stop.offset).caret := by
    intro u hu hku
    rcases List.mem_append.mp hu with hu | hu
    · exact hus u hu
    · rw [List.mem_singleton.mp hu] at hku
      exact absurd hku ha
  rw [touching_of_kept h' htb hb hnone, inToken_placeAt hmem (by omega) (by omega), List.length_append]
  rfl

theorem touching_of_belongs {k : Nat} (h : Belongs text o k token) (ho : o ≤ text.length) :
    touching (parse text) (placeAt text.toList o).caret = ⟨some token, k, typedBefore o token⟩ := by
  cases h with
  | inside hsplit hfrom hto =>
      exact touching_of_within hsplit ho (Nat.le_of_lt hfrom) (Nat.le_of_lt hto) (.inr hfrom) (.inr hto)
  | behind hsplit hk => exact touching_behind hsplit hk
  | before hsplit hka hkb => exact touching_before hsplit hka hkb
  | first hsplit =>
      have hmem : token ∈ tokenize text := by simp [hsplit]
      have hlt := start_lt_stop hmem
      have hstart : token.start.offset = 0 := by
        rw [head?_place token (by rw [← tokenize, hsplit]; rfl)]
        rfl
      rw [← List.nil_append (token :: _)] at hsplit
      exact touching_of_within hsplit ho (by omega) (by omega) (.inl rfl) (.inr (by omega))
  | last hsplit =>
      have hmem : token ∈ tokenize text := by simp [hsplit]
      have hlt := start_lt_stop hmem
      have hlast : token ∈ (place Position.start (lexemes text.toList)).getLast? := by
        rw [← tokenize, hsplit]
        simp
      have hstop : token.stop.offset = text.length := by
        rw [getLast?_place token hlast, flatMap_lexemes, Position.offset_after, String.length_toList]
        exact Nat.zero_add _
      exact touching_of_within hsplit ho (by omega) (by omega) (.inr (by omega)) (.inl rfl)

theorem locate_of_touching {p : Parse} {k : Nat} {typed : String} (h : touching p c = ⟨some token, k, typed⟩) :
    locate p c = ⟨some token, if token.isName then k - 1 else k, typed⟩ := by
  simp only [locate, h, isIdentifier, Option.any_some]
  split <;> rfl

end Cursor

/-- The caret on a line of a text and in a column of this line belongs to one token, which its offset tells together
with which tokens the parser kept: the cursor has this token and its index. What has been typed is the part of a name
before the offset. The cursor for completion is the same, but for a name its index is one less. -/
theorem cursor_at_offset (text : String) (n column : Nat) (line : List Char) (hne : text ≠ "")
    (hline : (text.toList.splitOn '\n')[n]? = some line) (hcolumn : column ≤ line.length) :
    let c : Caret := ⟨n + 1, column⟩
    let o := Text.offset text.toList n column
    (∃ k token, Cursor.Belongs text o k token) ∧
    ∀ k token, Cursor.Belongs text o k token →
      let typed := if token.isName then String.ofList (token.text.toList.take (o - token.start.offset)) else ""
      Cursor.touching (parse text) c = ⟨some token, k, typed⟩ ∧
      Cursor.locate (parse text) c = ⟨some token, if token.isName then k - 1 else k, typed⟩ := by
  obtain ⟨hle, hcaret⟩ := placeAt_offset hline hcolumn
  rw [String.length_toList] at hle
  refine ⟨Cursor.exists_belongs hne hle, fun k token hbelongs => ?_⟩
  have htouching := Cursor.touching_of_belongs hbelongs hle
  rw [hcaret] at htouching
  exact ⟨htouching, Cursor.locate_of_touching htouching⟩

/-- The parser drops the parenthesis, so a caret between it and the name belongs to the name. -/
theorem cursor_at_offset_behind_dropped :
    let text := "val n\nfun f() {)na}"
    let name : Token := ⟨.terminal .name, "na", ⟨16, 2, 11⟩, ⟨18, 2, 13⟩⟩
    text ≠ "" ∧ (text.toList.splitOn '\n')[1]? = some "fun f() {)na}".toList ∧
    Text.offset text.toList 1 10 = 16 ∧ Cursor.Belongs text 16 12 name ∧
    Cursor.touching (parse text) ⟨2, 10⟩ = ⟨some name, 12, ""⟩ ∧
    Cursor.locate (parse text) ⟨2, 10⟩ = ⟨some name, 11, ""⟩ := by
  intro text name
  let stray : Token := ⟨.terminal .rpar, ")", ⟨15, 2, 10⟩, ⟨16, 2, 11⟩⟩
  have hne : text ≠ "" := by decide
  have hline : (text.toList.splitOn '\n')[1]? = some "fun f() {)na}".toList := by decide +kernel
  have hoffset : Text.offset text.toList 1 10 = 16 := by decide +kernel
  have hsplit : tokenize text = (tokenize text).take 11 ++ stray :: name :: (tokenize text).drop 13 := by
    decide +kernel
  have hlength : ((tokenize text).take 11).length = 11 := by decide +kernel
  have hkept : ¬ Cursor.Kept text stray ∧ Cursor.Kept text name := by decide +kernel
  have hbelongs := Cursor.Belongs.before hsplit hkept.1 hkept.2
  rw [hlength] at hbelongs
  obtain ⟨_, hcursor⟩ := cursor_at_offset text 1 10 _ hne hline (by decide +kernel)
  obtain ⟨htouching, hlocate⟩ := hcursor 12 name (hoffset ▸ hbelongs)
  rw [hoffset] at htouching hlocate
  exact ⟨hne, hline, hoffset, hbelongs, htouching, hlocate⟩

end Typeahead
