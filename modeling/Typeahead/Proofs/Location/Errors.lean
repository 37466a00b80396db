import Typeahead.Proofs.Completion.Imports
import Typeahead.Proofs.Location.Decoding
import Typeahead.Proofs.Server.Position

/-!
Which locations name no path. A URI is refused for an escape without two digits, for its host, or for a path whose bytes
are no text; what is not a URI is never refused.
-/

namespace Typeahead

namespace Location

variable {c : Char} {n : Nat} {cs run rest text xs ys : List Char}

/-! ## Escapes without digits -/

theorem isDigit_of_hexDigit? (h : Text.hexDigit? c = some n) : IsDigit c n := by
  have hdigits : (List.range 0x80).all fun k =>
      (Text.hexDigit? (Char.ofNat k)).all fun n =>
        "0123456789abcdef".toList[n]? == some (Char.ofNat k) ||
          "0123456789ABCDEF".toList[n]? == some (Char.ofNat k) := by
    decide
  have hascii : c.toNat < 0x80 := by
    delta Text.hexDigit? Char.isDigit at h
    simp only [Bool.and_eq_true, decide_eq_true_eq, Char.le_def, UInt32.le_iff_toNat_le, ge_iff_le] at h
    change (if 48 ≤ c.toNat ∧ c.toNat ≤ 57 then _ else if 97 ≤ c.toNat ∧ c.toNat ≤ 102 then _
      else if 65 ≤ c.toNat ∧ c.toNat ≤ 70 then _ else none) = _ at h
    repeat' split at h
    case isFalse => cases h
    all_goals omega
  have hc := List.all_eq_true.mp hdigits c.toNat (List.mem_range.mpr hascii)
  rw [Char.ofNat_toNat, h] at hc
  simpa [IsDigit] using hc

theorem hexDigit?_of_not_inAscii (h : Text.inAscii c = false) : Text.hexDigit? c = none := by
  cases hc : Text.hexDigit? c with
  | none => rfl
  | some n => simp [inAscii_of_isPlain (isDigit_of_hexDigit? hc).isPlain] at h

/-- Whether a text starts with two hexadecimal digits. -/
def StartsWithDigits (cs : List Char) : Prop :=
  ∃ x m y n rest, cs = x :: y :: rest ∧ IsDigit x m ∧ IsDigit y n

/-- Whether a percent sign in a text is not followed by two hexadecimal digits. -/
def Malformed (cs : List Char) : Prop :=
  ∃ rest, '%' :: rest <:+ cs ∧ ¬ StartsWithDigits rest

theorem isSome_escaped?_iff : (escaped? cs).isSome ↔ StartsWithDigits cs := by
  constructor
  · intro h
    match cs, h with
    | x :: y :: rest, h =>
      cases hx : Text.hexDigit? x with
      | none => simp [escaped?, hx] at h
      | some m =>
        cases hy : Text.hexDigit? y with
        | none => simp [escaped?, hx, hy] at h
        | some n => exact ⟨x, m, y, n, rest, rfl, isDigit_of_hexDigit? hx, isDigit_of_hexDigit? hy⟩
  · rintro ⟨x, m, y, n, rest, rfl, hx, hy⟩
    simp [escaped?, hx.hexDigit?, hy.hexDigit?]

theorem malformed_cons_iff :
    Malformed (c :: cs) ↔ (c = '%' ∧ ¬ StartsWithDigits cs) ∨ Malformed cs := by
  constructor
  · rintro ⟨rest, hsuffix, hdigits⟩
    rcases List.suffix_cons_iff.mp hsuffix with heq | hsuffix
    · obtain ⟨rfl, rfl⟩ := List.cons.inj heq
      exact .inl ⟨rfl, hdigits⟩
    · exact .inr ⟨rest, hsuffix, hdigits⟩
  · rintro (⟨rfl, hdigits⟩ | ⟨rest, hsuffix, hdigits⟩)
    · exact ⟨cs, List.suffix_refl _, hdigits⟩
    · exact ⟨rest, hsuffix.trans (List.suffix_cons c cs), hdigits⟩

theorem malformedEscape?_eq_none_iff (offset : Nat) (cs : List Char) :
    malformedEscape? offset cs = none ↔ ¬ Malformed cs := by
  induction cs generalizing offset with
  | nil =>
      refine iff_of_true rfl ?_
      rintro ⟨rest, hsuffix, -⟩
      cases List.suffix_nil.mp hsuffix
  | cons c cs ih =>
      rw [malformed_cons_iff, ← isSome_escaped?_iff, Bool.not_eq_true, Option.isSome_eq_false_iff, malformedEscape?]
      split
      · rename_i h
        simp [h]
      · rename_i h
        rw [ih, not_or]
        exact (and_iff_right h).symm

/-! ## The bytes of a path -/

theorem bytes_of_escaped? (h : escaped? cs = none) : bytes ('%' :: cs) = Utf8.encode ['%'] ++ bytes cs := by
  match cs with
  | [] | [a] => simp [bytes]
  | a :: b :: cs =>
    have hescaped : escaped? [a, b] = none := h
    rw [bytes, hescaped]

theorem bytes_append_of_notMem (h : '%' ∉ xs) (ys : List Char) : bytes (xs ++ ys) = Utf8.encode xs ++ bytes ys := by
  induction xs with
  | nil => rfl
  | cons x xs ih =>
      rw [List.mem_cons, not_or] at h
      rw [List.cons_append, bytes_of_ne (Ne.symm h.1), ih h.2, ← List.append_assoc, ← Utf8.encode_append]
      rfl

theorem bytes_eq_encode (h : '%' ∉ cs) : bytes cs = Utf8.encode cs := by
  have hbytes := bytes_append_of_notMem h []
  rwa [List.append_nil, bytes, List.append_nil] at hbytes

theorem escaped?_of_head? (h : ∀ d ∈ ys.head?, Text.hexDigit? d = none) :
    escaped? ys = none ∧ ∀ a, escaped? (a :: ys) = none := by
  cases ys with
  | nil => exact ⟨rfl, fun a => rfl⟩
  | cons d ys =>
      have hd := h d rfl
      refine ⟨?_, fun a => by simp [escaped?, hd]⟩
      cases ys with
      | nil => rfl
      | cons e ys => simp [escaped?, hd]

/-- No escape goes on in a text that starts with no digit. -/
theorem bytes_append_of_head? (xs : List Char) (h : ∀ d ∈ ys.head?, Text.hexDigit? d = none) :
    bytes (xs ++ ys) = bytes xs ++ bytes ys := by
  fun_induction bytes xs with
  | case1 => rfl
  | case2 a b cs byte hbyte ih =>
      simp only [List.cons_append, bytes, hbyte, ih]
  | case3 a b cs hnone ih =>
      have hescaped : escaped? (a :: b :: cs ++ ys) = none := hnone
      rw [List.cons_append, bytes_of_escaped? hescaped, ih, List.append_assoc]
  | case4 c cs hshape ih =>
      by_cases hc : c = '%'
      · subst hc
        have hescaped : escaped? (cs ++ ys) = none := by
          -- At most one character is left, and an escape needs two digits.
          rcases cs with _ | ⟨a, _ | ⟨b, cs⟩⟩
          · exact (escaped?_of_head? h).1
          · exact (escaped?_of_head? h).2 a
          · exact absurd rfl (hshape a b cs rfl)
        rw [List.cons_append, bytes_of_escaped? hescaped, ih, List.append_assoc]
      · rw [List.cons_append, bytes_of_ne hc, ih, List.append_assoc]

/-! ## Runs -/

/-- The first run goes up to where ASCII characters and others meet. -/
theorem exists_run (c : Char) (cs : List Char) :
    ∃ run rest, cs = run ++ rest ∧ runs (c :: cs) = (c :: run) :: runs rest ∧
      (∀ d ∈ run, Text.inAscii d = Text.inAscii c) ∧ ∀ d ∈ rest.head?, Text.inAscii d = !Text.inAscii c := by
  induction cs generalizing c with
  | nil => exact ⟨[], [], rfl, rfl, by simp, by simp⟩
  | cons d cs ih =>
      obtain ⟨run, rest, rfl, hruns, hrun, hrest⟩ := ih d
      by_cases hcd : Text.inAscii c = Text.inAscii d
      · refine ⟨d :: run, rest, rfl, ?_, ?_, hcd ▸ hrest⟩
        · rw [runs, hruns]
          simp [hcd]
        · exact List.forall_mem_cons.mpr ⟨hcd.symm, hcd ▸ hrun⟩
      · refine ⟨[], d :: (run ++ rest), rfl, ?_, by simp, ?_⟩
        · rw [runs, hruns]
          simp [hcd]
        · simpa using Bool.eq_not_of_ne (Ne.symm hcd)

theorem unescape_eq_ok_iff_of_runs (h : runs cs = run :: runs rest) :
    unescape cs = .ok text ↔ ∃ xs ys, unescapeRun run = .ok xs ∧ unescape rest = .ok ys ∧ text = xs ++ ys := by
  rw [unescape, unescape, h, List.mapM_cons]
  cases unescapeRun run with
  | error fault => simp [bind, Except.bind, Except.map]
  | ok xs =>
      cases (runs rest).mapM unescapeRun with
      | error fault => simp [bind, Except.bind, Except.map]
      | ok yss => simp [bind, Except.bind, Except.map, pure, Except.pure, eq_comm]

theorem notMem_of_not_inAscii (h : ∀ d ∈ run, Text.inAscii d = false) : '%' ∉ run :=
  fun hmem => absurd (h '%' hmem) (by decide)

theorem unescapeRun_eq_ok_iff (h : ∀ d ∈ run, Text.inAscii d = Text.inAscii c) :
    unescapeRun (c :: run) = .ok xs ↔ bytes (c :: run) = Utf8.encode xs := by
  have hrun : ∀ d ∈ c :: run, Text.inAscii d = Text.inAscii c := List.forall_mem_cons.mpr ⟨rfl, h⟩
  cases hc : Text.inAscii c with
  | true =>
      rw [hc] at hrun
      rw [unescapeRun, if_pos (List.all_eq_true.mpr hrun), Utf8.decodeFrom_eq_ok_iff]
  | false =>
      rw [hc] at hrun
      rw [unescapeRun, if_neg (by simp [hc]), bytes_eq_encode (notMem_of_not_inAscii hrun), Except.ok.injEq]
      exact ⟨fun he => he ▸ rfl, Utf8.encode_inj⟩

theorem not_continues_of_head? (h : ∀ d ∈ rest.head?, Text.inAscii d = false) :
    ∀ b ∈ (bytes rest).head?, ¬ Utf8.Continues b := by
  cases rest with
  | nil => simp [bytes]
  | cons d rest =>
      have hd : d ≠ '%' := by
        rintro rfl
        exact absurd (h '%' rfl) (by decide)
      obtain ⟨b, more, hb, -⟩ := Utf8.first_utf8EncodeChar d []
      rw [bytes_of_ne hd, Utf8.encode_cons, hb]
      rintro _ ⟨⟩
      exact (Utf8.continues_of_encodeChar hb).1

/-- The bytes of a run are cut off from the others between characters, so that each run can be read on its own. -/
theorem bytes_run_eq_encode_iff (hrun : ∀ d ∈ run, Text.inAscii d = Text.inAscii c)
    (hrest : ∀ d ∈ rest.head?, Text.inAscii d = !Text.inAscii c) :
    bytes (c :: run ++ rest) = Utf8.encode text ↔
      ∃ xs ys, bytes (c :: run) = Utf8.encode xs ∧ bytes rest = Utf8.encode ys ∧ text = xs ++ ys := by
  have hwhole : ∀ d ∈ c :: run, Text.inAscii d = Text.inAscii c := List.forall_mem_cons.mpr ⟨rfl, hrun⟩
  cases hc : Text.inAscii c with
  | true =>
      rw [hc] at hrest
      rw [bytes_append_of_head? _ fun d hd => hexDigit?_of_not_inAscii (hrest d hd)]
      constructor
      · intro h
        obtain ⟨xs, ys, rfl, hxs, hys⟩ := Utf8.exists_of_encode_eq_append h.symm (not_continues_of_head? hrest)
        exact ⟨xs, ys, hxs, hys, rfl⟩
      · rintro ⟨xs, ys, hxs, hys, rfl⟩
        rw [hxs, hys, Utf8.encode_append]
  | false =>
      rw [hc] at hwhole
      have hpercent := notMem_of_not_inAscii hwhole
      rw [bytes_append_of_notMem hpercent, bytes_eq_encode hpercent]
      constructor
      · intro h
        obtain ⟨ys, rfl, hys⟩ := Utf8.exists_of_encode_append_eq h
        exact ⟨c :: run, ys, rfl, hys, rfl⟩
      · rintro ⟨xs, ys, hxs, hys, rfl⟩
        rw [hxs, hys, Utf8.encode_append]

/-- A path is read as a text exactly if its bytes are those of the text. -/
theorem unescape_eq_ok_iff (cs text : List Char) : unescape cs = .ok text ↔ bytes cs = Utf8.encode text := by
  match cs with
  | [] =>
    have hnil : unescape [] = .ok [] := rfl
    have hbytes : bytes [] = Utf8.encode [] := by simp [bytes, Utf8.encode]
    rw [hnil, hbytes, Except.ok.injEq]
    exact ⟨fun he => he ▸ rfl, Utf8.encode_inj⟩
  | c :: cs =>
    obtain ⟨run, rest, hcs, hruns, hrun, hrest⟩ := exists_run c cs
    have hshort : rest.length < (c :: cs).length := by
      rw [hcs, List.length_cons, List.length_append]
      omega
    rw [unescape_eq_ok_iff_of_runs hruns, hcs, ← List.cons_append, bytes_run_eq_encode_iff hrun hrest]
    simp only [unescapeRun_eq_ok_iff hrun, unescape_eq_ok_iff rest]
termination_by cs.length

end Location

/-! ## Hosts -/

namespace Host

variable {host address : List Char}

/-- Whether brackets may enclose an address. -/
def Enclosable (address : List Char) : Prop :=
  if address.head? = some 'v' then isFutureAddress address else isIPv6 address ∧ ¬ isIPv4 address

/-- Whether a host is accepted: any brackets in it come in both kinds and enclose an address, and none of its characters
looks like one that means something in a URI. -/
structure Accepted (host : List Char) : Prop where
  brackets : '[' ∈ host ∨ ']' ∈ host →
    '[' ∈ host ∧ ']' ∈ host ∧ ∃ address, address? host = some address ∧ Enclosable address
  characters : ∀ c ∈ host, c.toNat ∉ lookalikes

theorem addressFault?_eq_none_iff : addressFault? address = none ↔ Enclosable address := by
  unfold addressFault? Enclosable
  by_cases hv : address.head? = some 'v'
  · simp [hv]
  · cases isIPv4 address <;> simp [hv]

theorem bracketFault?_eq_none_iff : bracketFault? host = none ↔ ('[' ∈ host ∨ ']' ∈ host →
    '[' ∈ host ∧ ']' ∈ host ∧ ∃ address, address? host = some address ∧ Enclosable address) := by
  unfold bracketFault?
  by_cases hopen : '[' ∈ host <;> by_cases hclose : ']' ∈ host
  · cases ha : address? host <;> simp [hopen, hclose, addressFault?_eq_none_iff]
  all_goals simp [hopen, hclose]

theorem fault?_eq_none_iff : fault? host = none ↔ Accepted host := by
  have hsplit : fault? host = none ↔ bracketFault? host = none ∧ ∀ c ∈ host, c.toNat ∉ lookalikes := by
    unfold fault?
    cases bracketFault? host <;> simp
  rw [hsplit, bracketFault?_eq_none_iff]
  exact ⟨fun ⟨hbrackets, hcharacters⟩ => ⟨hbrackets, hcharacters⟩, fun h => ⟨h.brackets, h.characters⟩⟩

end Host

/-! ## Refused locations -/

namespace Location

variable {location : String}

/-- Whether a location is a URI. -/
def IsUri (location : String) : Prop :=
  scheme <+: location.toList

/-- The host of a location that is a URI. -/
def uriHost (location : String) : List Char :=
  (hostAndPath (location.toList.drop scheme.length)).1

/-- The path of a location that is a URI, with its escapes. -/
def uriPath (location : String) : List Char :=
  (hostAndPath (location.toList.drop scheme.length)).2

theorem toPath_of_not_isUri (cwd : String) (h : ¬ IsUri location) : ∃ path, toPath cwd location = .ok path := by
  rw [toPath, if_neg (mt List.isPrefixOf_iff_prefix.mp h)]
  split
  · exact ⟨_, rfl⟩
  · exact ⟨_, rfl⟩

theorem toPath_of_isUri (cwd : String) (h : IsUri location) :
    toPath cwd location = ofUri location (location.toList.drop scheme.length) :=
  if_pos (List.isPrefixOf_iff_prefix.mpr h)

theorem toPath_of_malformed (cwd : String) (h : IsUri location) (hm : Malformed location.toList) :
    ∃ offset, toPath cwd location = .error (.malformedEscape offset location) := by
  rw [toPath_of_isUri cwd h, ofUri]
  cases hoffset : malformedEscape? 0 location.toList with
  | none => exact absurd hm ((malformedEscape?_eq_none_iff 0 _).mp hoffset)
  | some offset => exact ⟨offset, rfl⟩

section WellFormed

variable (cwd : String) (h : IsUri location) (hm : ¬ Malformed location.toList)
include h hm

theorem toPath_of_fault {fault : HostError} (hf : Host.fault? (uriHost location) = some fault) :
    toPath cwd location = .error (.host fault) := by
  rw [uriHost] at hf
  simp only [toPath_of_isUri cwd h, ofUri, (malformedEscape?_eq_none_iff 0 _).mpr hm, hf]

theorem toPath_of_unescape (ha : Host.Accepted (uriHost location)) :
    (∃ fault, unescape (uriPath location) = .error fault ∧ toPath cwd location = .error (.undecodable location fault)) ∨
      ∃ cs path, unescape (uriPath location) = .ok cs ∧ toPath cwd location = .ok path := by
  have hf := Host.fault?_eq_none_iff.mpr ha
  rw [uriHost] at hf
  simp only [toPath_of_isUri cwd h, ofUri, (malformedEscape?_eq_none_iff 0 _).mpr hm, hf, uriPath]
  cases unescape (hostAndPath (location.toList.drop scheme.length)).2 with
  | error fault => exact .inl ⟨fault, rfl, rfl⟩
  | ok cs => exact .inr ⟨cs, _, rfl, rfl⟩

theorem toPath_of_invalid (ha : Host.Accepted (uriHost location)) (hv : ¬ Utf8.Valid (bytes (uriPath location))) :
    ∃ fault, toPath cwd location = .error (.undecodable location fault) := by
  rcases toPath_of_unescape cwd h hm ha with ⟨fault, -, hpath⟩ | ⟨cs, path, hcs, -⟩
  · exact ⟨fault, hpath⟩
  · exact absurd ⟨cs, (unescape_eq_ok_iff _ _).mp hcs⟩ hv

theorem toPath_of_valid (ha : Host.Accepted (uriHost location)) (hv : Utf8.Valid (bytes (uriPath location))) :
    ∃ path, toPath cwd location = .ok path := by
  obtain ⟨text, htext⟩ := hv
  rcases toPath_of_unescape cwd h hm ha with ⟨fault, hfault, -⟩ | ⟨cs, path, -, hpath⟩
  · cases hfault.symm.trans ((unescape_eq_ok_iff _ _).mpr htext)
  · exact ⟨path, hpath⟩

end WellFormed

end Location

theorem Completion.resolution_of_error {cwd location : String} {e : LocationError} {p : Parse} (fs : FileSystem)
    (h : Location.toPath cwd location = .error e) (himports : Import.ofTree p.tree ≠ []) :
    resolution fs cwd location p = { error := some (.location e) } := by
  unfold resolution
  split
  · rename_i hnil
    exact absurd hnil himports
  · rw [Resolution.ofImports, Location.directory, h]
    rfl

/-- A completion that needs the directory of a refused location fails, and shows why only if an escape is at fault. -/
theorem Session.suggest_of_error {s : Session} {uri text : String} {e : LocationError} (position : EditorPosition)
    (htext : s.documentText uri = .ok text) (himports : Import.ofTree (parse text).tree ≠ [])
    (h : Location.toPath s.disk.cwd uri = .error e) :
    s.suggest ⟨uri, position⟩ =
      { messages := if e.isDecodeError then [.popup .error e.message] else []
        result := .error (.imports (.location e)) } := by
  have hfound := Completion.resolution_of_error s.disk.fileSystem h himports
  simp [suggest, htext, suggestAt, Completion.collect_eq, hfound, alarm]

namespace Location

/-- A location is refused exactly if it is a URI with an escape that lacks its digits, with a host that is not accepted,
or with a path whose bytes are no text. The host is looked at second, and is no fault of the encoding: a completion that
meets it fails without a word, where it shows the other errors. -/
theorem refused_iff (cwd location : String) :
    ((∃ e, toPath cwd location = .error e) ↔ IsUri location ∧
      (Malformed location.toList ∨ ¬ Host.Accepted (uriHost location) ∨ ¬ Utf8.Valid (bytes (uriPath location)))) ∧
    ((∃ e, toPath cwd location = .error e ∧ e.isDecodeError) ↔ IsUri location ∧
      (Malformed location.toList ∨ Host.Accepted (uriHost location) ∧ ¬ Utf8.Valid (bytes (uriPath location)))) ∧
    (∀ fault, toPath cwd location = .error (.host fault) ↔ IsUri location ∧
      ¬ Malformed location.toList ∧ Host.fault? (uriHost location) = some fault) ∧
    ∀ (s : Session) (position : EditorPosition) (text : String), s.documentText location = .ok text →
      Import.ofTree (parse text).tree ≠ [] → ∀ e, toPath s.disk.cwd location = .error e →
        s.suggest ⟨location, position⟩ =
          { messages := if e.isDecodeError then [.popup .error e.message] else []
            result := .error (.imports (.location e)) } := by
  suffices hthree : _ ∧ _ ∧ _ from ⟨hthree.1, hthree.2.1, hthree.2.2, fun s position text htext himports e he =>
    Session.suggest_of_error position htext himports he⟩
  by_cases huri : IsUri location
  case neg =>
    obtain ⟨path, hpath⟩ := toPath_of_not_isUri cwd huri
    simp [hpath, huri]
  by_cases hm : Malformed location.toList
  case pos =>
    obtain ⟨offset, hpath⟩ := toPath_of_malformed cwd huri hm
    simp [hpath, huri, hm, LocationError.isDecodeError]
  cases hf : Host.fault? (uriHost location) with
  | some fault =>
      have ha : ¬ Host.Accepted (uriHost location) := by simp [← Host.fault?_eq_none_iff, hf]
      simp [toPath_of_fault cwd huri hm hf, huri, hm, ha, LocationError.isDecodeError]
  | none =>
      have ha := Host.fault?_eq_none_iff.mp hf
      by_cases hv : Utf8.Valid (bytes (uriPath location))
      · obtain ⟨path, hpath⟩ := toPath_of_valid cwd huri hm ha hv
        simp [hpath, hm, ha, hv]
      · obtain ⟨fault, hpath⟩ := toPath_of_invalid cwd huri hm ha hv
        simp [hpath, huri, ha, hv, LocationError.isDecodeError]

/-- A byte that starts no character: the document is open and imports another, so the error is shown. -/
theorem refused_iff_undecodable :
    let uri := "file:///w/a%ff.mykt"
    let s : Session := { documents := Documents.put [] uri "import b", disk := Disk.empty "/w", reader := Yaml.reader }
    let e := LocationError.undecodable uri ⟨4, 1, 0xff, .invalidStart⟩
    s.documentText uri = .ok "import b" ∧ Import.ofTree (parse "import b").tree ≠ [] ∧
      toPath s.disk.cwd uri = .error e ∧ ¬ Utf8.Valid (bytes (uriPath uri)) ∧
      s.suggest ⟨uri, ⟨0, 8⟩⟩ =
        { messages := [.popup .error e.message], result := .error (.imports (.location e)) } := by
  intro uri s e
  have htext : s.documentText uri = .ok "import b" := Session.documentText_of_put rfl
  have himports : Import.ofTree (parse "import b").tree ≠ [] := by decide +kernel
  have hpath : toPath s.disk.cwd uri = .error e := by decide +kernel
  have hwell : ¬ Malformed uri.toList := (malformedEscape?_eq_none_iff 0 _).mp (by decide)
  obtain ⟨-, hdecode, -, hshown⟩ := refused_iff s.disk.cwd uri
  obtain ⟨-, hm | ⟨-, hv⟩⟩ := hdecode.mp ⟨e, hpath, rfl⟩
  · exact absurd hm hwell
  · exact ⟨htext, himports, hpath, hv, hshown s ⟨0, 8⟩ "import b" htext himports e hpath⟩

/-- A bracket that opens no address makes a location name no path, with nothing wrong in its escapes. -/
theorem bracket_in_host_refused :
    let location := "file://[/a.mykt"
    toPath "/w" location = .error (.host .misplacedBrackets) ∧
      (LocationError.host .misplacedBrackets).isDecodeError = false ∧
      ¬ Malformed location.toList ∧ Utf8.Valid (bytes (uriPath location)) := by
  intro location
  have hpercent : '%' ∉ uriPath location := by decide
  exact ⟨by decide +kernel, rfl, (malformedEscape?_eq_none_iff 0 _).mp (by decide), _, bytes_eq_encode hpercent⟩

end Location

end Typeahead
