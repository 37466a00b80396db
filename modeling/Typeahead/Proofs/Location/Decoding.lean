import Mathlib.Data.List.TakeWhile
import Typeahead.Location
import Typeahead.Proofs.Text.Utf8

/-!
Decoding undoes encoding. A path can be written in a URI in many ways, as each of its bytes may be escaped; whichever is
chosen, the location is the path again, but for the slash before a drive letter.
-/

namespace Typeahead.Location

/-! ## Encodings -/

/-- The characters that may stand for themselves in an encoded path. -/
def isPlain (c : Char) : Bool :=
  c.isAlphanum || ['-', '.', '_', '~', '/'].contains c

/-- A hexadecimal digit, of either case, and its value. -/
def IsDigit (c : Char) (n : Nat) : Prop :=
  "0123456789abcdef".toList[n]? = some c ∨ "0123456789ABCDEF".toList[n]? = some c

/-- Some bytes and a way to write them: each as the character it is, if that one is plain, or as an escape. -/
inductive Encodes : List UInt8 → List Char → Prop
  | nil : Encodes [] []
  | plain {c : Char} {bs : List UInt8} {es : List Char} :
      isPlain c → Encodes bs es → Encodes (UInt8.ofNat c.toNat :: bs) (c :: es)
  | escape {b : UInt8} {x y : Char} {bs : List UInt8} {es : List Char} :
      IsDigit x (b.toNat / 16) → IsDigit y (b.toNat % 16) → Encodes bs es → Encodes (b :: bs) ('%' :: x :: y :: es)

variable {c x y : Char} {n : Nat} {b : UInt8} {bs : List UInt8} {cs es : List Char}

theorem inAscii_of_isPlain (h : isPlain c) : Text.inAscii c := by
  simp only [isPlain, Bool.or_eq_true, List.contains_iff_mem, List.mem_cons, List.not_mem_nil, or_false] at h
  rcases h with h | rfl | rfl | rfl | rfl | rfl
  · delta Char.isAlphanum Char.isAlpha Char.isUpper Char.isLower Char.isDigit at h
    simp only [Bool.or_eq_true, Bool.and_eq_true, decide_eq_true_eq, UInt32.le_iff_toNat_le, ge_iff_le] at h
    change ((65 ≤ c.toNat ∧ c.toNat ≤ 90) ∨ (97 ≤ c.toNat ∧ c.toNat ≤ 122)) ∨ (48 ≤ c.toNat ∧ c.toNat ≤ 57) at h
    simp only [Text.inAscii, decide_eq_true_eq]
    omega
  all_goals decide

namespace IsDigit

theorem isPlain (h : IsDigit c n) : isPlain c := by
  have hlower : "0123456789abcdef".toList.all Location.isPlain := by decide
  have hupper : "0123456789ABCDEF".toList.all Location.isPlain := by decide
  rcases h with h | h
  · exact List.all_eq_true.mp hlower c (List.mem_of_getElem? h)
  · exact List.all_eq_true.mp hupper c (List.mem_of_getElem? h)

theorem hexDigit? (h : IsDigit c n) : Text.hexDigit? c = some n := by
  have hlower : "0123456789abcdef".toList.zipIdx.all fun d => Text.hexDigit? d.1 == some d.2 := by decide
  have hupper : "0123456789ABCDEF".toList.zipIdx.all fun d => Text.hexDigit? d.1 == some d.2 := by decide
  rcases h with h | h
  · simpa using List.all_eq_true.mp hlower (c, n) (List.mem_zipIdx_iff_getElem?.mpr h)
  · simpa using List.all_eq_true.mp hupper (c, n) (List.mem_zipIdx_iff_getElem?.mpr h)

end IsDigit

theorem escaped?_of_digits (hx : IsDigit x (b.toNat / 16)) (hy : IsDigit y (b.toNat % 16)) (cs : List Char) :
    escaped? (x :: y :: cs) = some b := by
  have hb : b.toNat / 16 * 16 + b.toNat % 16 = b.toNat := by omega
  simp [escaped?, hx.hexDigit?, hy.hexDigit?, hb]

theorem ne_percent_of_isPlain (h : isPlain c) : c ≠ '%' := by
  rintro rfl
  cases h

namespace Encodes

theorem char (h : Encodes bs es) (hc : c ∈ es) : isPlain c ∨ c = '%' := by
  induction h with
  | nil => cases hc
  | plain hp _ ih =>
      rcases List.mem_cons.mp hc with rfl | hc
      · exact .inl hp
      · exact ih hc
  | escape hx hy _ ih =>
      simp only [List.mem_cons] at hc
      rcases hc with rfl | rfl | rfl | hc
      · exact .inr rfl
      · exact .inl hx.isPlain
      · exact .inl hy.isPlain
      · exact ih hc

theorem inAscii (h : Encodes bs es) (hc : c ∈ es) : Text.inAscii c := by
  rcases h.char hc with hp | rfl
  · exact inAscii_of_isPlain hp
  · decide

end Encodes

/-! ## Escapes -/

theorem malformedEscape?_of_ne (h : c ≠ '%') (offset : Nat) (cs : List Char) :
    malformedEscape? offset (c :: cs) = malformedEscape? (offset + 1) cs := by
  simp [malformedEscape?, h]

theorem malformedEscape?_append (h : '%' ∉ cs) (offset : Nat) (es : List Char) :
    malformedEscape? offset (cs ++ es) = malformedEscape? (offset + cs.length) es := by
  induction cs generalizing offset with
  | nil => rfl
  | cons c cs ih =>
      rw [List.mem_cons, not_or] at h
      rw [List.cons_append, malformedEscape?_of_ne (Ne.symm h.1), ih h.2, List.length_cons, Nat.add_right_comm,
        Nat.add_assoc]

theorem Encodes.malformedEscape?_eq_none (h : Encodes bs es) (offset : Nat) : malformedEscape? offset es = none := by
  induction h generalizing offset with
  | nil => rfl
  | plain hp _ ih => rw [malformedEscape?_of_ne (ne_percent_of_isPlain hp), ih]
  | escape hx hy _ ih =>
      rw [malformedEscape?, if_neg (by simp [escaped?_of_digits hx hy]),
        malformedEscape?_of_ne (ne_percent_of_isPlain hx.isPlain),
        malformedEscape?_of_ne (ne_percent_of_isPlain hy.isPlain), ih]

theorem bytes_of_ne (h : c ≠ '%') (cs : List Char) : bytes (c :: cs) = Utf8.encode [c] ++ bytes cs := by
  rw [bytes]
  rintro _ _ _ rfl
  exact absurd rfl h

theorem Encodes.bytes_eq (h : Encodes bs es) : bytes es = bs := by
  induction h with
  | nil => simp [bytes]
  | plain hp _ ih =>
      have hc : _ < 0x80 := of_decide_eq_true (inAscii_of_isPlain hp)
      rw [bytes_of_ne (ne_percent_of_isPlain hp), ih, Utf8.encode_of_ascii hc]
      rfl
  | escape hx hy _ ih => rw [bytes, escaped?_of_digits hx hy, ih]

theorem runs_of_ascii (hne : cs ≠ []) (h : ∀ c ∈ cs, Text.inAscii c) : runs cs = [cs] := by
  induction cs with
  | nil => exact absurd rfl hne
  | cons c cs ih =>
      rw [List.forall_mem_cons] at h
      cases cs with
      | nil => rfl
      | cons d cs =>
          have hd := h.2 d List.mem_cons_self
          rw [runs, ih (List.cons_ne_nil d cs) h.2]
          simp [h.1, hd]

/-- An encoded text is decoded to what was encoded. -/
theorem Encodes.unescape_eq (h : Encodes (Utf8.encode cs) es) (hne : es ≠ []) : unescape es = .ok cs := by
  have hascii : ∀ c ∈ es, Text.inAscii c := fun c hc => h.inAscii hc
  have hrun : unescapeRun es = .ok cs := by
    rw [unescapeRun, if_pos (List.all_eq_true.mpr hascii), h.bytes_eq, Utf8.decodeFrom_encode]
  rw [unescape, runs_of_ascii hne hascii]
  simp [hrun, pure, Except.pure, bind, Except.bind, Except.map]

/-! ## URIs -/

/-- The characters that are dropped from a URI, and those that end its path. -/
def separators : List Char := ['\t', '\n', '\r', '?', '#']

theorem notMem_separators_of_isPlain (h : isPlain c) : c ∉ separators := by
  intro hc
  have hnone : separators.all fun c => !isPlain c := by decide
  simpa [h] using List.all_eq_true.mp hnone c hc

theorem Encodes.notMem_separators (h : Encodes bs es) (hc : c ∈ es) : c ∉ separators := by
  rcases h.char hc with hp | rfl
  · exact notMem_separators_of_isPlain hp
  · decide

theorem ne_of_notMem_separators (h : c ∉ separators) : c ≠ '\t' ∧ c ≠ '\n' ∧ c ≠ '\r' ∧ c ≠ '?' ∧ c ≠ '#' := by
  simpa [separators] using h

/-- The host ends where the path begins, and a path without separators is taken whole. -/
theorem hostAndPath_of_notMem {host : List Char} (hslash : '/' ∉ host) (hhost : ∀ c ∈ host, c ∉ separators)
    (hpath : ∀ c ∈ es, c ∉ separators) : hostAndPath ('/' :: '/' :: (host ++ '/' :: es)) = (host, '/' :: es) := by
  have hpath : ∀ c ∈ '/' :: es, c ∉ separators := List.forall_mem_cons.mpr ⟨by decide, hpath⟩
  have hfilter : ('/' :: '/' :: (host ++ '/' :: es)).filter (fun c => !(c == '\t' || c == '\n' || c == '\r')) =
      '/' :: '/' :: (host ++ '/' :: es) := by
    have hall : ∀ c ∈ '/' :: '/' :: (host ++ '/' :: es), c ∉ separators :=
      List.forall_mem_cons.mpr ⟨by decide, List.forall_mem_cons.mpr ⟨by decide,
        List.forall_mem_append.mpr ⟨hhost, hpath⟩⟩⟩
    rw [List.filter_eq_self]
    intro c hc
    simp [ne_of_notMem_separators (hall c hc)]
  have hcut : Text.cut (fun c => c == '/' || c == '?' || c == '#') (host ++ '/' :: es) = (host, '/' :: es) := by
    have hall : ∀ c ∈ host, (!(c == '/' || c == '?' || c == '#')) = true := by
      intro c hc
      have hne : c ≠ '/' := fun he => hslash (he ▸ hc)
      simp [ne_of_notMem_separators (hhost c hc), hne]
    rw [Text.cut, List.takeWhile_append_of_pos hall, List.dropWhile_append_of_pos hall]
    simp
  have hwhole : (Text.cut (fun c => c == '?' || c == '#') ('/' :: es)).1 = '/' :: es := by
    rw [Text.cut, List.takeWhile_eq_self_iff]
    intro c hc
    simp [ne_of_notMem_separators (hpath c hc)]
  simp only [hostAndPath, hfilter, hcut, hwhole]

/-- Whether a path is that of a drive: a slash, a letter and a colon. -/
def isDrive : List Char → Bool
  | '/' :: letter :: ':' :: _ => letter.isAlpha
  | _ => false

theorem dropDriveSlash_of_slash (cs : List Char) :
    dropDriveSlash ('/' :: cs) = if isDrive ('/' :: cs) then cs else '/' :: cs := by
  match cs with
  | [] => rfl
  | [c] => rfl
  | letter :: d :: cs =>
      by_cases hd : d = ':'
      · subst hd
        cases hl : letter.isAlpha <;> simp [dropDriveSlash, isDrive, hl]
      · simp [dropDriveSlash, isDrive, hd]

/-- A path from the root and a way to write it: the slash at its front stays, and all bytes after it are encoded. -/
def EncodesPath (path e : String) : Prop :=
  ∃ cs es, path.toList = '/' :: cs ∧ e.toList = '/' :: es ∧ Encodes (Utf8.encode cs) es

/-- The hosts that are this one. -/
def localHosts : List String := ["", "localhost"]

theorem localHosts_plain {host : String} (h : host ∈ localHosts) :
    Host.fault? host.toList = none ∧ (host.toList.isEmpty || host.toList == "localhost".toList) = true ∧
      host.toList.all fun c => isPlain c && c != '/' := by
  simp only [localHosts, List.mem_cons, List.not_mem_nil, or_false] at h
  rcases h with rfl | rfl <;> decide

theorem ofUri_of_local {location host : String} (hhost : host ∈ localHosts) {rest : List Char}
    (hm : malformedEscape? 0 location.toList = none) (hp : hostAndPath rest = (host.toList, es))
    (he : unescape es = .ok cs) : ofUri location rest = .ok (String.ofList (dropDriveSlash cs)) := by
  obtain ⟨hfault, hlocal, -⟩ := localHosts_plain hhost
  simp only [ofUri, hm, hp, hfault, he, hlocal, ↓reduceIte]

theorem toPath_of_encodes (cwd : String) {host e : String} (hhost : host ∈ localHosts) (he : e.toList = '/' :: es)
    (h : Encodes (Utf8.encode cs) es) :
    toPath cwd ("file://" ++ host ++ e) = .ok (String.ofList (dropDriveSlash ('/' :: cs))) := by
  have hlocation : ("file://" ++ host ++ e).toList = scheme ++ '/' :: '/' :: (host.toList ++ '/' :: es) := by
    rw [String.toList_append, String.toList_append, he, List.append_assoc]
    rfl
  have hslash : Encodes (Utf8.encode ('/' :: cs)) ('/' :: es) := .plain (c := '/') rfl h
  obtain ⟨-, -, hplain⟩ := localHosts_plain hhost
  simp only [List.all_eq_true, Bool.and_eq_true, bne_iff_ne] at hplain
  have hmalformed : malformedEscape? 0 ("file://" ++ host ++ e).toList = none := by
    have hpercent : '%' ∉ scheme ++ '/' :: '/' :: host.toList := by
      simp only [List.mem_append, List.mem_cons, not_or]
      exact ⟨by decide, by decide, by decide, fun hc => ne_percent_of_isPlain (hplain '%' hc).1 rfl⟩
    have hsplit : scheme ++ '/' :: '/' :: (host.toList ++ '/' :: es) =
        (scheme ++ '/' :: '/' :: host.toList) ++ '/' :: es := by simp
    rw [hlocation, hsplit, malformedEscape?_append hpercent, hslash.malformedEscape?_eq_none]
  have hparts : hostAndPath ('/' :: '/' :: (host.toList ++ '/' :: es)) = (host.toList, '/' :: es) :=
    hostAndPath_of_notMem (fun hc => (hplain '/' hc).2 rfl)
      (fun c hc => notMem_separators_of_isPlain (hplain c hc).1) fun c hc => h.notMem_separators hc
  have hscheme : scheme.isPrefixOf ("file://" ++ host ++ e).toList := by
    rw [List.isPrefixOf_iff_prefix, hlocation]
    exact List.prefix_append scheme _
  rw [toPath, if_pos hscheme]
  refine ofUri_of_local hhost hmalformed ?_ (hslash.unescape_eq (List.cons_ne_nil _ _))
  rw [hlocation, List.drop_left, hparts]

/-- A location that encodes a path is that path, however it is encoded and whether or not it names this host; only the
slash before a drive letter is lost. Its directory goes up to the last slash that is left. -/
theorem path_of_file_uri (cwd path e : String) (h : EncodesPath path e) :
    ∃ found directory name,
      (∀ host ∈ localHosts, toPath cwd ("file://" ++ host ++ e) = .ok found ∧
        Location.directory cwd ("file://" ++ host ++ e) = .ok directory) ∧
      path = (if isDrive path.toList then "/" else "") ++ found ∧
      found = directory ++ name ∧ '/' ∉ name.toList ∧ (directory = "" ∨ ∃ front, directory = front ++ "/") := by
  obtain ⟨cs, es, hpath, he, hes⟩ := h
  obtain ⟨name, hname, hslash⟩ := Path.exists_parent_append (String.ofList (dropDriveSlash ('/' :: cs)))
  refine ⟨_, _, name, fun host hhost => ?_, ?_, hname, hslash, ?_⟩
  · have hfound := toPath_of_encodes cwd hhost he hes
    exact ⟨hfound, by rw [Location.directory, hfound]; rfl⟩
  · rw [← String.toList_inj, String.toList_append, String.toList_ofList, dropDriveSlash_of_slash, hpath]
    split <;> simp
  · refine (Path.parent_cases _).imp id fun ⟨front, hfront⟩ => ⟨String.ofList front, ?_⟩
    rw [← String.toList_inj, hfront, String.toList_append, String.toList_ofList]
    rfl

/-- The path of a file on a drive, with a letter of two bytes and digits of both cases. -/
theorem path_of_file_uri_drive :
    EncodesPath "/c:/é b" "/c%3a/%C3%a9%20b" ∧
      ∃ directory name,
        toPath "/work" ("file://" ++ "localhost" ++ "/c%3a/%C3%a9%20b") = .ok "c:/é b" ∧
        Location.directory "/work" ("file://" ++ "" ++ "/c%3a/%C3%a9%20b") = .ok directory ∧
        "c:/é b" = directory ++ name ∧ '/' ∉ name.toList := by
  have hbytes : Utf8.encode ['c', ':', '/', 'é', ' ', 'b'] = [0x63, 0x3a, 0x2f, 0xc3, 0xa9, 0x20, 0x62] := by decide
  have hencodes : EncodesPath "/c:/é b" "/c%3a/%C3%a9%20b" := by
    refine ⟨['c', ':', '/', 'é', ' ', 'b'],
      ['c', '%', '3', 'a', '/', '%', 'C', '3', '%', 'a', '9', '%', '2', '0', 'b'], by decide, by decide, ?_⟩
    rw [hbytes]
    exact .plain (c := 'c') rfl (.escape (.inl rfl) (.inl rfl) (.plain (c := '/') rfl (.escape (.inr rfl) (.inr rfl)
      (.escape (.inl rfl) (.inl rfl) (.escape (.inl rfl) (.inl rfl) (.plain (c := 'b') rfl .nil))))))
  obtain ⟨found, directory, name, huri, hpath, hname, hslash, -⟩ := path_of_file_uri "/work" _ _ hencodes
  have hdrive : isDrive "/c:/é b".toList = true := by decide
  have hsplit : "/c:/é b" = "/" ++ "c:/é b" := by decide
  rw [hdrive, if_pos rfl, hsplit, String.append_right_inj] at hpath
  subst hpath
  exact ⟨hencodes, directory, name, (huri "localhost" (by decide)).1, (huri "" (by decide)).2, hname, hslash⟩

end Typeahead.Location
