import Typeahead.Text.Utf8

/-!
Reading what was written. The bytes of a character are read as that character, whatever bytes follow, and no other bytes
are; so bytes are read as a text exactly if they are its bytes. Where bytes of a text are cut before one that continues
no character, both parts are texts.
-/

namespace Typeahead.Utf8

variable {code lo hi count n : Nat} {b : UInt8} {bs : List UInt8}

/-! ## Continuation bytes -/

theorem finish_of_within (hlo : lo ≤ b.toNat) (hhi : b.toNat ≤ hi)
    (h : finish (code * 64 + b.toNat % 64) 0x80 0xbf count bs = .ok n) :
    finish code lo hi (count + 1) (b :: bs) = .ok n := by
  simp [finish, hlo, hhi, h]

theorem first_of_finish (hb : 0x80 ≤ b.toNat) (hc : continuation? b = some (lo, hi, count))
    (hf : finish (leadBits count b) lo hi count bs = .ok n) : first b bs = .ok (Char.ofNat n, count) := by
  simp [first, Nat.not_lt.mpr hb, hc, hf]

theorem continuation?_of_two (hlo : 0xc2 ≤ b.toNat) (hhi : b.toNat ≤ 0xdf) :
    continuation? b = some (0x80, 0xbf, 1) := by
  simp [continuation?, hlo, hhi]

/-- After the first of three bytes, the second is bounded so that no shorter form and no surrogate is written. -/
theorem continuation?_of_three (hlo : 0xe0 ≤ b.toNat) (hhi : b.toNat ≤ 0xef) :
    continuation? b = some (if b.toNat = 0xe0 then 0xa0 else 0x80, if b.toNat = 0xed then 0x9f else 0xbf, 2) := by
  by_cases h₀ : b.toNat = 0xe0
  · simp [continuation?, h₀]
  · by_cases h₁ : b.toNat = 0xed
    · simp [continuation?, h₁]
    · simp only [continuation?]
      rw [if_neg (by omega), if_neg h₀, if_neg h₁, if_pos (by omega), if_neg h₀, if_neg h₁]

/-- After the first of four bytes, the second is bounded so that no shorter form and nothing above the last character
is written. -/
theorem continuation?_of_four (hlo : 0xf0 ≤ b.toNat) (hhi : b.toNat ≤ 0xf4) :
    continuation? b = some (if b.toNat = 0xf0 then 0x90 else 0x80, if b.toNat = 0xf4 then 0x8f else 0xbf, 3) := by
  by_cases h₀ : b.toNat = 0xf0
  · simp [continuation?, h₀]
  · by_cases h₁ : b.toNat = 0xf4
    · simp [continuation?, h₁]
    · simp only [continuation?]
      rw [if_neg (by omega), if_neg (by omega), if_neg (by omega), if_neg (by omega), if_neg h₀, if_pos (by omega),
        if_neg h₀, if_neg h₁]

/-! ## Characters -/

theorem toNat_ofNat_byte (h : n < 256) : (UInt8.ofNat n).toNat = n := by
  simp [Nat.mod_eq_of_lt h]

theorem first_of_one (h : n ≤ 0x7f) (bs : List UInt8) : first (UInt8.ofNat n) bs = .ok (Char.ofNat n, 0) := by
  rw [first, toNat_ofNat_byte (by omega), if_pos (by omega)]

theorem first_of_two (hlo : 0x7f < n) (hhi : n ≤ 0x7ff) (bs : List UInt8) :
    first (UInt8.ofNat (n / 64 % 32 + 192)) (UInt8.ofNat (n % 64 + 128) :: bs) = .ok (Char.ofNat n, 1) := by
  have h₁ := toNat_ofNat_byte (n := n / 64 % 32 + 192) (by omega)
  have h₂ := toNat_ofNat_byte (n := n % 64 + 128) (by omega)
  refine first_of_finish (by omega) (continuation?_of_two (by omega) (by omega)) ?_
  refine finish_of_within (by omega) (by omega) ?_
  rw [finish, leadBits, h₁, h₂]
  congr 1
  omega

theorem first_of_three (hlo : 0x7ff < n) (hhi : n ≤ 0xffff) (hn : n < 0xd800 ∨ 0xdfff < n) (bs : List UInt8) :
    first (UInt8.ofNat (n / 4096 % 16 + 224))
      (UInt8.ofNat (n / 64 % 64 + 128) :: UInt8.ofNat (n % 64 + 128) :: bs) = .ok (Char.ofNat n, 2) := by
  have h₁ := toNat_ofNat_byte (n := n / 4096 % 16 + 224) (by omega)
  have h₂ := toNat_ofNat_byte (n := n / 64 % 64 + 128) (by omega)
  have h₃ := toNat_ofNat_byte (n := n % 64 + 128) (by omega)
  refine first_of_finish (by omega) (continuation?_of_three (by omega) (by omega)) ?_
  refine finish_of_within (by split <;> omega) (by split <;> omega) (finish_of_within (by omega) (by omega) ?_)
  rw [finish, leadBits, h₁, h₂, h₃]
  congr 1
  omega

theorem first_of_four (hlo : 0xffff < n) (hhi : n < 0x110000) (bs : List UInt8) :
    first (UInt8.ofNat (n / 262144 % 8 + 240))
      (UInt8.ofNat (n / 4096 % 64 + 128) :: UInt8.ofNat (n / 64 % 64 + 128) :: UInt8.ofNat (n % 64 + 128) :: bs) =
      .ok (Char.ofNat n, 3) := by
  have h₁ := toNat_ofNat_byte (n := n / 262144 % 8 + 240) (by omega)
  have h₂ := toNat_ofNat_byte (n := n / 4096 % 64 + 128) (by omega)
  have h₃ := toNat_ofNat_byte (n := n / 64 % 64 + 128) (by omega)
  have h₄ := toNat_ofNat_byte (n := n % 64 + 128) (by omega)
  refine first_of_finish (by omega) (continuation?_of_four (by omega) (by omega)) ?_
  refine finish_of_within (by split <;> omega) (by split <;> omega)
    (finish_of_within (by omega) (by omega) (finish_of_within (by omega) (by omega) ?_))
  rw [finish, leadBits, h₁, h₂, h₃, h₄]
  · congr 1
    omega
  · simp
  · simp

/-- The bytes of a character are read as that character, whatever follows them. -/
theorem first_utf8EncodeChar (c : Char) (bs : List UInt8) :
    ∃ b rest, String.utf8EncodeChar c = b :: rest ∧ first b (rest ++ bs) = .ok (c, rest.length) := by
  have hvalid : c.val.toNat < 0xd800 ∨ 0xdfff < c.val.toNat ∧ c.val.toNat < 0x110000 := c.valid
  have hc : Char.ofNat c.val.toNat = c := Char.ofNat_toNat c
  by_cases h₁ : c.val.toNat ≤ 0x7f
  · have hfirst := first_of_one h₁ bs
    rw [hc] at hfirst
    exact ⟨_, [], by simp only [String.utf8EncodeChar, h₁, ↓reduceIte], hfirst⟩
  · by_cases h₂ : c.val.toNat ≤ 0x7ff
    · have hfirst := first_of_two (by omega) h₂ bs
      rw [hc] at hfirst
      exact ⟨_, [_], by simp only [String.utf8EncodeChar, h₁, h₂, ↓reduceIte], hfirst⟩
    · by_cases h₃ : c.val.toNat ≤ 0xffff
      · have hfirst := first_of_three (by omega) h₃ (by omega) bs
        rw [hc] at hfirst
        exact ⟨_, [_, _], by simp only [String.utf8EncodeChar, h₁, h₂, h₃, ↓reduceIte], hfirst⟩
      · have hfirst := first_of_four (n := c.val.toNat) (by omega) (by omega) bs
        rw [hc] at hfirst
        exact ⟨_, [_, _, _], by simp only [String.utf8EncodeChar, h₁, h₂, h₃, ↓reduceIte], hfirst⟩

/-! ## Texts -/

theorem encode_of_ascii {c : Char} (h : c.toNat < 0x80) : encode [c] = [UInt8.ofNat c.toNat] := by
  have hc : c.val.toNat ≤ 0x7f := Nat.le_of_lt_succ h
  simp only [encode, List.flatMap_singleton, String.utf8EncodeChar, hc, ↓reduceIte]
  rfl

/-- The bytes of a text are read as that text. -/
theorem decodeFrom_encode (position : Nat) (cs : List Char) : decodeFrom position (encode cs) = .ok cs := by
  induction cs generalizing position with
  | nil => simp [encode, decodeFrom]
  | cons c cs ih =>
      obtain ⟨b, rest, hc, hfirst⟩ := first_utf8EncodeChar c (encode cs)
      have hbytes : encode (c :: cs) = b :: (rest ++ encode cs) := by simp [encode, hc]
      rw [hbytes, decodeFrom, hfirst]
      simp [ih]

/-! ## Bytes that are read -/

theorem toNat_ofNat_char (h : n < 0xd800 ∨ 0xdfff < n ∧ n < 0x110000) : (Char.ofNat n).val.toNat = n := by
  have hvalid : n.isValidChar := h
  rw [Char.ofNat, dif_pos hvalid]
  rfl

theorem ofNat_eq_byte (h : n = b.toNat) : UInt8.ofNat n = b := by
  rw [h, UInt8.ofNat_toNat]

theorem exists_of_finish (h : finish code lo hi (count + 1) bs = .ok n) :
    ∃ b rest, bs = b :: rest ∧ lo ≤ b.toNat ∧ b.toNat ≤ hi ∧
      finish (code * 64 + b.toNat % 64) 0x80 0xbf count rest = .ok n := by
  cases bs with
  | nil => cases h
  | cons b rest =>
      rw [finish] at h
      split at h
      · rename_i hb
        refine ⟨b, rest, rfl, hb.1, hb.2, ?_⟩
        cases hf : finish (code * 64 + b.toNat % 64) 0x80 0xbf count rest with
        | ok m => simpa [hf] using h
        | error e => simp [hf] at h
      · cases h

theorem encodeChar_of_one (h : b.toNat < 0x80) : String.utf8EncodeChar (Char.ofNat b.toNat) = [b] := by
  have hn := toNat_ofNat_char (n := b.toNat) (by omega)
  simp only [String.utf8EncodeChar, hn]
  rw [if_pos (by omega), ofNat_eq_byte rfl]

section Sequences

variable {b₁ b₂ b₃ b₄ : UInt8}

theorem encodeChar_of_two (hn : n = b₁.toNat % 0x20 * 64 + b₂.toNat % 64) (h₁ : 0xc2 ≤ b₁.toNat)
    (h₁' : b₁.toNat ≤ 0xdf) (h₂ : 0x80 ≤ b₂.toNat) (h₂' : b₂.toNat ≤ 0xbf) :
    String.utf8EncodeChar (Char.ofNat n) = [b₁, b₂] := by
  have hval := toNat_ofNat_char (n := n) (by omega)
  simp only [String.utf8EncodeChar, hval]
  rw [if_neg (by omega), if_pos (by omega), ofNat_eq_byte (b := b₁) (by omega), ofNat_eq_byte (b := b₂) (by omega)]

theorem encodeChar_of_three (hn : n = (b₁.toNat % 0x10 * 64 + b₂.toNat % 64) * 64 + b₃.toNat % 64)
    (h₁ : 0xe0 ≤ b₁.toNat) (h₁' : b₁.toNat ≤ 0xef) (h₂ : (if b₁.toNat = 0xe0 then 0xa0 else 0x80) ≤ b₂.toNat)
    (h₂' : b₂.toNat ≤ if b₁.toNat = 0xed then 0x9f else 0xbf) (h₃ : 0x80 ≤ b₃.toNat) (h₃' : b₃.toNat ≤ 0xbf) :
    String.utf8EncodeChar (Char.ofNat n) = [b₁, b₂, b₃] := by
  have hwithin : 0x80 ≤ b₂.toNat ∧ b₂.toNat ≤ 0xbf := by split at h₂ <;> split at h₂' <;> omega
  have hlow : 0x7ff < n := by split at h₂ <;> omega
  have hgap : n < 0xd800 ∨ 0xdfff < n := by split at h₂' <;> omega
  have hval := toNat_ofNat_char (n := n) (by omega)
  simp only [String.utf8EncodeChar, hval]
  rw [if_neg (by omega), if_neg (by omega), if_pos (by omega), ofNat_eq_byte (b := b₁) (by omega),
    ofNat_eq_byte (b := b₂) (by omega), ofNat_eq_byte (b := b₃) (by omega)]

theorem encodeChar_of_four
    (hn : n = ((b₁.toNat % 0x08 * 64 + b₂.toNat % 64) * 64 + b₃.toNat % 64) * 64 + b₄.toNat % 64)
    (h₁ : 0xf0 ≤ b₁.toNat) (h₁' : b₁.toNat ≤ 0xf4) (h₂ : (if b₁.toNat = 0xf0 then 0x90 else 0x80) ≤ b₂.toNat)
    (h₂' : b₂.toNat ≤ if b₁.toNat = 0xf4 then 0x8f else 0xbf) (h₃ : 0x80 ≤ b₃.toNat) (h₃' : b₃.toNat ≤ 0xbf)
    (h₄ : 0x80 ≤ b₄.toNat) (h₄' : b₄.toNat ≤ 0xbf) :
    String.utf8EncodeChar (Char.ofNat n) = [b₁, b₂, b₃, b₄] := by
  have hwithin : 0x80 ≤ b₂.toNat ∧ b₂.toNat ≤ 0xbf := by split at h₂ <;> split at h₂' <;> omega
  have hlow : 0xffff < n := by split at h₂ <;> omega
  have hhigh : n < 0x110000 := by split at h₂' <;> omega
  have hval := toNat_ofNat_char (n := n) (by omega)
  simp only [String.utf8EncodeChar, hval]
  rw [if_neg (by omega), if_neg (by omega), if_neg (by omega), ofNat_eq_byte (b := b₁) (by omega),
    ofNat_eq_byte (b := b₂) (by omega), ofNat_eq_byte (b := b₃) (by omega), ofNat_eq_byte (b := b₄) (by omega)]

end Sequences

theorem continuation?_cases (h : continuation? b = some (lo, hi, count)) :
    (0xc2 ≤ b.toNat ∧ b.toNat ≤ 0xdf) ∨ (0xe0 ≤ b.toNat ∧ b.toNat ≤ 0xef) ∨ (0xf0 ≤ b.toNat ∧ b.toNat ≤ 0xf4) := by
  simp only [continuation?] at h
  repeat' split at h
  all_goals first | omega | cases h

/-- What is read as a character are the bytes of that character. -/
theorem encodeChar_of_first {c : Char} {k : Nat} (h : first b bs = .ok (c, k)) :
    String.utf8EncodeChar c = b :: bs.take k := by
  rw [first] at h
  split at h
  · rename_i hb
    cases h
    exact encodeChar_of_one hb
  split at h
  · cases h
  rename_i lo hi count hcont
  split at h
  case h_2 => cases h
  rename_i n hfinish
  cases h
  -- The first byte says how many bytes follow, and each of these is within its bounds.
  rcases continuation?_cases hcont with ⟨h₁, h₁'⟩ | ⟨h₁, h₁'⟩ | ⟨h₁, h₁'⟩
  · rw [continuation?_of_two h₁ h₁'] at hcont
    cases hcont
    obtain ⟨b₂, rest, rfl, h₂, h₂', hfinish⟩ := exists_of_finish hfinish
    cases hfinish
    exact encodeChar_of_two rfl h₁ h₁' h₂ h₂'
  · rw [continuation?_of_three h₁ h₁'] at hcont
    cases hcont
    obtain ⟨b₂, rest, rfl, h₂, h₂', hfinish⟩ := exists_of_finish hfinish
    obtain ⟨b₃, rest, rfl, h₃, h₃', hfinish⟩ := exists_of_finish hfinish
    cases hfinish
    exact encodeChar_of_three rfl h₁ h₁' h₂ h₂' h₃ h₃'
  · rw [continuation?_of_four h₁ h₁'] at hcont
    cases hcont
    obtain ⟨b₂, rest, rfl, h₂, h₂', hfinish⟩ := exists_of_finish hfinish
    obtain ⟨b₃, rest, rfl, h₃, h₃', hfinish⟩ := exists_of_finish hfinish
    obtain ⟨b₄, rest, rfl, h₄, h₄', hfinish⟩ := exists_of_finish hfinish
    cases hfinish
    exact encodeChar_of_four rfl h₁ h₁' h₂ h₂' h₃ h₃' h₄ h₄'

/-- Bytes are read as a text exactly if they are the bytes of that text. -/
theorem decodeFrom_eq_ok_iff {position : Nat} {cs : List Char} : decodeFrom position bs = .ok cs ↔ bs = encode cs := by
  refine ⟨fun h => ?_, fun h => h ▸ decodeFrom_encode position cs⟩
  fun_induction decodeFrom position bs generalizing cs with
  | case1 =>
      cases h
      rfl
  | case2 => cases h
  | case3 position b bs c k hfirst rest hrest ih =>
      cases h
      have hchar := encodeChar_of_first hfirst
      rw [encode, List.flatMap_cons, hchar, List.cons_append]
      have htail := ih hrest
      rw [encode] at htail
      rw [← htail, List.take_append_drop]
  | case4 => cases h

/-- Whether some bytes are those of a text. -/
def Valid (bs : List UInt8) : Prop :=
  ∃ cs, bs = encode cs

/-! ## Bytes side by side -/

variable {xs ys : List UInt8} {cs ds : List Char}

theorem encode_append (cs ds : List Char) : encode (cs ++ ds) = encode cs ++ encode ds :=
  List.flatMap_append

theorem encode_inj (h : encode cs = encode ds) : cs = ds := by
  have hread := decodeFrom_encode 0 cs
  rw [h, decodeFrom_encode] at hread
  exact (Except.ok.inj hread).symm

theorem encode_cons (c : Char) (cs : List Char) : encode (c :: cs) = String.utf8EncodeChar c ++ encode cs :=
  List.flatMap_cons

/-- Whether a byte can follow another within a character. -/
def Continues (b : UInt8) : Prop :=
  0x80 ≤ b.toNat ∧ b.toNat ≤ 0xbf

/-- All bytes of a character but the first continue it. -/
theorem continues_of_encodeChar {c : Char} {rest : List UInt8} (h : String.utf8EncodeChar c = b :: rest) :
    ¬ Continues b ∧ ∀ b' ∈ rest, Continues b' := by
  have hc : c.val.toNat < 0x110000 := by
    have hvalid : c.val.toNat < 0xd800 ∨ 0xdfff < c.val.toNat ∧ c.val.toNat < 0x110000 := c.valid
    omega
  have hbyte (m : Nat) : Continues (UInt8.ofNat (m % 64 + 128)) := by
    rw [Continues, toNat_ofNat_byte (by omega)]
    omega
  simp only [String.utf8EncodeChar] at h
  split at h
  · obtain ⟨rfl, rfl⟩ := List.cons.inj h
    rw [Continues, toNat_ofNat_byte (by omega)]
    exact ⟨by omega, List.forall_mem_nil _⟩
  split at h
  · obtain ⟨rfl, rfl⟩ := List.cons.inj h
    rw [Continues, toNat_ofNat_byte (by omega)]
    exact ⟨by omega, List.forall_mem_singleton.mpr (hbyte _)⟩
  split at h
  · obtain ⟨rfl, rfl⟩ := List.cons.inj h
    rw [Continues, toNat_ofNat_byte (by omega)]
    exact ⟨by omega, List.forall_mem_cons.mpr ⟨hbyte _, List.forall_mem_singleton.mpr (hbyte _)⟩⟩
  · obtain ⟨rfl, rfl⟩ := List.cons.inj h
    rw [Continues, toNat_ofNat_byte (by omega)]
    exact ⟨by omega, List.forall_mem_cons.mpr ⟨hbyte _, List.forall_mem_cons.mpr
      ⟨hbyte _, List.forall_mem_singleton.mpr (hbyte _)⟩⟩⟩

/-- A text that is cut before a byte that continues no character is cut between characters. -/
theorem exists_of_encode_eq_append (h : encode cs = xs ++ ys) (hy : ∀ b ∈ ys.head?, ¬ Continues b) :
    ∃ as ds, cs = as ++ ds ∧ xs = encode as ∧ ys = encode ds := by
  induction cs generalizing xs with
  | nil =>
      obtain ⟨rfl, rfl⟩ := List.append_eq_nil_iff.mp h.symm
      exact ⟨[], [], rfl, rfl, rfl⟩
  | cons c cs ih =>
      obtain ⟨b, rest, hc, -⟩ := first_utf8EncodeChar c []
      cases xs with
      | nil => exact ⟨[], c :: cs, rfl, rfl, h.symm⟩
      | cons x xs =>
          rw [encode_cons, hc, List.cons_append, List.cons_append] at h
          obtain ⟨rfl, hrest⟩ := List.cons.inj h
          rcases List.append_eq_append_iff.mp hrest with ⟨mid, rfl, hcs⟩ | ⟨mid, rfl, rfl⟩
          · obtain ⟨as, ds, rfl, rfl, rfl⟩ := ih hcs
            exact ⟨c :: as, ds, rfl, by rw [encode_cons, hc, List.cons_append], rfl⟩
          · cases mid with
            | nil => exact ⟨[c], cs, rfl, by simp [hc, encode], rfl⟩
            | cons m mid => exact absurd ((continues_of_encodeChar hc).2 m (by simp)) (hy m rfl)

/-- What follows a text in the bytes of a text is a text. -/
theorem exists_of_encode_append_eq (h : encode cs ++ ys = encode ds) : ∃ es, ds = cs ++ es ∧ ys = encode es := by
  induction cs generalizing ds with
  | nil => exact ⟨ds, rfl, h⟩
  | cons c cs ih =>
      rw [encode_cons, List.append_assoc] at h
      obtain ⟨b, rest, hc, hfirst⟩ := first_utf8EncodeChar c (encode cs ++ ys)
      cases ds with
      | nil =>
          rw [hc] at h
          cases h
      | cons d ds =>
          obtain ⟨b', rest', hd, hfirst'⟩ := first_utf8EncodeChar d (encode ds)
          rw [encode_cons, hc, hd, List.cons_append, List.cons_append] at h
          obtain ⟨rfl, hrest⟩ := List.cons.inj h
          rw [hrest, hfirst'] at hfirst
          obtain ⟨rfl, -⟩ := Prod.mk.inj (Except.ok.inj hfirst)
          rw [hc] at hd
          obtain ⟨-, rfl⟩ := List.cons.inj hd
          obtain ⟨es, rfl, hes⟩ := ih (List.append_cancel_left hrest)
          exact ⟨es, rfl, hes⟩

end Typeahead.Utf8
