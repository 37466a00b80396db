import Typeahead.Proofs.Cursor.Find
import Typeahead.Proofs.Parser.Expectation
import Typeahead.Proofs.Suggestion.Distinct
import Typeahead.Proofs.Token.Cut

/-!
Text after the token at the caret has no part in completion by the grammar: if it is cut off, the caret is in
the same token, the same terminals are expected there, and the same keywords are suggested.
-/

namespace Typeahead

/-! ## Tokens kept of a text that is cut off -/

theorem kept_upTo {text : String} {us vs : List Token} {token : Token} (h : tokenize text = us ++ token :: vs) :
    ∃ more ⊆ vs, kept (outcomesOf text) = kept (outcomesOf (upTo text token.stop.offset)) ++ more := by
  have hsplit : significant (tokenize text) =
      significant (tokenize (upTo text token.stop.offset)) ++ significant vs := by
    rw [tokenize_upTo h, ← significant_append, h, List.append_assoc, List.singleton_append]
  refine ⟨_, ?_, by rw [outcomesOf, hsplit, Parser.outcomes_append, kept_append]; rfl⟩
  intro x hx
  obtain ⟨o, ho, rfl⟩ := List.mem_map.mp hx
  have hmem := List.mem_map_of_mem (f := Prod.fst) (List.mem_of_mem_filter ho)
  rw [Parser.map_fst_outcomes] at hmem
  exact List.mem_of_mem_filter hmem

theorem mem_tokenize_of_kept {text : String} {token : Token} (h : token ∈ kept (outcomesOf text)) :
    token ∈ tokenize text := by
  rw [kept_outcomesOf] at h
  exact List.mem_of_mem_filter (List.mem_of_mem_filter h)

/-- Each token of a text has its own place in the stream. -/
theorem indexOf?_parse {text : String} {us vs : List Token} {token : Token}
    (h : tokenize text = us ++ token :: vs) : (parse text).indexOf? token = some us.length := by
  have hmem : token ∈ tokenize text := by simp [h]
  have hm := isMissing_of_mem_tokenize hmem
  have hpw := pairwise_tokenize text
  rw [h, List.pairwise_append] at hpw
  have hus : us.findIdx? (·.start.offset == token.start.offset) = none := by
    rw [List.findIdx?_eq_none_iff]
    intro u hu
    have hlt := hpw.2.2 u hu token (by simp)
    simp only [beq_eq_false_iff_ne, ne_eq]
    omega
  change (if token.isMissing then none else
    (tokenize text).findIdx? (·.start.offset == token.start.offset)) = _
  rw [hm, h, List.findIdx?_append, hus]
  simp [List.findIdx?_cons]

/-! ## The cursor -/

namespace Cursor

variable {c : Caret}

/-- A scan ends at some token, and goes by nothing after it; or it finds none. -/
theorem scan_cases (c : Caret) (i : Nat) (before : Option (Nat × Token)) (tokens : List Token) :
    (∃ us token vs, tokens = us ++ token :: vs ∧ (scan c i before tokens).node = some token ∧
      (scan c i before tokens).index = i + us.length ∧
      scan c i before (us ++ [token]) = scan c i before tokens) ∨
    scan c i before tokens = scan c i before [] := by
  induction tokens generalizing i before with
  | nil => exact .inr rfl
  | cons u rest ih =>
      by_cases ht : u.touches c
      · refine .inl ⟨[], u, rest, rfl, ?_⟩
        simp [scan, ht, inToken]
      · have hscan (ts : List Token) : scan c i before (u :: ts) =
            scan c (i + 1) (if u.stop.caret.le c then some (i, u) else before) ts := by
          simp [scan, ht]
        rw [hscan]
        rcases ih (i + 1) (if u.stop.caret.le c then some (i, u) else before) with
          ⟨us, token, vs, rfl, hnode, hindex, hcut⟩ | hnil
        · refine .inl ⟨u :: us, token, vs, rfl, hnode, ?_, (hscan _).trans hcut⟩
          rw [hindex, List.length_cons]
          omega
        · by_cases hs : u.stop.caret.le c
          · refine .inl ⟨[], u, rest, rfl, ?_⟩
            rw [List.nil_append, hscan, hnil]
            simp [scan, hs]
          · refine .inr (hnil.trans ?_)
            simp [scan, hs]

theorem touching_of_some {text : String} {us vs : List Token} {token : Token}
    (hf : first? c (kept (outcomesOf text)) = some token) (h : tokenize text = us ++ token :: vs) :
    touching (parse text) c = inToken token us.length c := by
  simp only [touching, find?_parse, hf, indexOf?_parse h]

theorem touching_of_none {text : String} (hf : first? c (kept (outcomesOf text)) = none) :
    touching (parse text) c = scan c 0 none (tokenize text) := by
  simp only [touching, find?_parse, hf]
  rfl

/-- The token at a caret is found without what comes after it. -/
theorem touching_upTo {text : String} {node : Token} (h : (touching (parse text) c).node = some node) :
    ∃ us vs, tokenize text = us ++ node :: vs ∧ (touching (parse text) c).index = us.length ∧
      touching (parse (upTo text node.stop.offset)) c = touching (parse text) c := by
  cases hf : first? c (kept (outcomesOf text)) with
  | some token =>
      have hmem := mem_tokenize_of_kept (List.mem_of_find?_eq_some hf)
      obtain ⟨us, vs, hsplit⟩ := List.append_of_mem hmem
      rw [touching_of_some hf hsplit] at h ⊢
      obtain rfl : token = node := Option.some.inj h
      refine ⟨us, vs, hsplit, rfl, ?_⟩
      obtain ⟨more, hmore, hkept⟩ := kept_upTo hsplit
      -- The token is not among those that are cut off, so it is the first one that is left.
      have hnot : token ∉ more := by
        have hnodup := nodup_of_pairwise (pairwise_tokenize text)
        rw [hsplit, List.nodup_append, List.nodup_cons] at hnodup
        exact fun hx => hnodup.2.1.1 (hmore hx)
      have hf' : first? c (kept (outcomesOf (upTo text token.stop.offset))) = some token := by
        rw [hkept, first?_append] at hf
        rcases Option.or_eq_some_iff.mp hf with hf | ⟨_, hf⟩
        · exact hf
        · exact absurd (List.mem_of_find?_eq_some hf) hnot
      exact touching_of_some hf' (tokenize_upTo hsplit)
  | none =>
      rw [touching_of_none hf] at h ⊢
      rcases scan_cases c 0 none (tokenize text) with ⟨us, token, vs, hsplit, hnode, hindex, hcut⟩ | hnil
      · obtain rfl : token = node := Option.some.inj (hnode.symm.trans h)
        obtain ⟨more, _, hkept⟩ := kept_upTo hsplit
        rw [hkept, first?_append, Option.or_eq_none_iff] at hf
        refine ⟨us, vs, hsplit, by simpa using hindex, ?_⟩
        rw [touching_of_none hf.1, tokenize_upTo hsplit, hcut]
      · rw [hnil] at h
        cases h

theorem node_locate (p : Parse) (c : Caret) : (locate p c).node = (touching p c).node := by
  simp only [locate]
  split <;> rfl

theorem locate_upTo {text : String} {node : Token} (h : (locate (parse text) c).node = some node) :
    ∃ us vs, tokenize text = us ++ node :: vs ∧ -1 ≤ (locate (parse text) c).index ∧
      (locate (parse text) c).index ≤ us.length ∧
      locate (parse (upTo text node.stop.offset)) c = locate (parse text) c := by
  rw [node_locate] at h
  obtain ⟨us, vs, hsplit, hindex, htouching⟩ := touching_upTo h
  refine ⟨us, vs, hsplit, ?_, ?_, by simp only [locate, htouching]⟩
  · simp only [locate]
    split
    · simp only [hindex]
      omega
    · omega
  · simp only [locate]
    split
    · simp only [hindex]
      omega
    · omega

end Cursor

/-- The terminals expected after a token hang on no token after it. -/
theorem expectedTerminals_of_append {us vs : List Token} {token : Token} {i : Int} (hi : -1 ≤ i)
    (hle : i ≤ us.length) :
    expectedTerminals (us ++ [token]) i = expectedTerminals (us ++ token :: vs) i := by
  have htake : (us ++ token :: vs).take (i + 1).toNat = (us ++ [token]).take (i + 1).toNat := by
    rw [← List.singleton_append, ← List.append_assoc]
    exact List.take_append_of_le_length (by simp; omega)
  rw [expectedTerminals_of_le hi, expectedTerminals_of_le hi, htake]

/-- Text after the token at the caret has no part in completion by the grammar. -/
theorem completion_of_text_up_to_caret (text : String) (c : Caret) (node : Token)
    (h : (Cursor.locate (parse text) c).node = some node) :
    let before := upTo text node.stop.offset
    let cursor := Cursor.locate (parse text) c
    Cursor.locate (parse before) c = cursor ∧
    expectedTerminals (tokenize before) cursor.index = expectedTerminals (tokenize text) cursor.index ∧
    ∀ (filter : Filter) (operators : Bool) (table table' : SymbolTable),
      (Suggestion.suggest filter operators (parse before) table c).filter (·.symbol.isNone) =
        (Suggestion.suggest filter operators (parse text) table' c).filter (·.symbol.isNone) := by
  obtain ⟨us, vs, hsplit, hlow, hhigh, hlocate⟩ := Cursor.locate_upTo h
  have hexpected : expectedTerminals (tokenize (upTo text node.stop.offset)) (Cursor.locate (parse text) c).index =
      expectedTerminals (tokenize text) (Cursor.locate (parse text) c).index := by
    rw [tokenize_upTo hsplit, hsplit]
    exact expectedTerminals_of_append hlow hhigh
  refine ⟨hlocate, hexpected, fun filter operators table table' => ?_⟩
  rw [Suggestion.suggest, Suggestion.suggest, Suggestion.atCursor, Suggestion.atCursor,
    Suggestion.keywords_ofExpected, Suggestion.keywords_ofExpected, hlocate]
  exact congrArg _ (congrArg _ (congrArg _ (congrArg _ hexpected)))

/-- A name that is being typed inside a parenthesis is completed as if the text ended there. -/
theorem completion_of_text_up_to_name :
    let text := "val a = (i + 1"
    let c : Caret := ⟨1, 10⟩
    (Cursor.locate (parse text) c).node = some ⟨.terminal .name, "i", ⟨9, 1, 10⟩, ⟨10, 1, 11⟩⟩ ∧
    Cursor.locate (parse "val a = (i") c = Cursor.locate (parse text) c ∧
    expectedTerminals (tokenize "val a = (i") 6 = expectedTerminals (tokenize text) 6 ∧
    (Suggestion.suggest .beginning false (parse "val a = (i") [] c).filter (·.symbol.isNone) =
      (Suggestion.suggest .beginning false (parse text) [] c).filter (·.symbol.isNone) := by
  have hcursor : Cursor.locate (parse "val a = (i + 1") ⟨1, 10⟩ =
      ⟨some ⟨.terminal .name, "i", ⟨9, 1, 10⟩, ⟨10, 1, 11⟩⟩, 6, "i"⟩ := by decide +kernel
  have hbefore : upTo "val a = (i + 1" 10 = "val a = (i" := by decide +kernel
  have hnode := congrArg Cursor.node hcursor
  obtain ⟨hlocate, hexpected, hkeywords⟩ := completion_of_text_up_to_caret _ _ _ hnode
  rw [hbefore] at hlocate hexpected hkeywords
  rw [congrArg Cursor.index hcursor] at hexpected
  exact ⟨hnode, hlocate, hexpected, hkeywords .beginning false [] []⟩

end Typeahead
