import Mathlib.Data.List.Sort
import Typeahead.Proofs.Suggestion.Distinct

/-!
What is suggested, described without the way it is found: which labels there are, what each of them stands for, and in
which order they come. No other list fits the description.
-/

namespace Typeahead

/-! ## Literals -/

/-- Whether a text has the form of a name: letters, digits and underscores, with no digit at its front. -/
def isWord (text : String) : Bool :=
  (text.toList.head?.any fun c => c.isAlpha || c == '_') && text.toList.all fun c => c.isAlphanum || c == '_'

namespace Terminal

/-- The literals of the grammar, in grammar order. -/
def literals : List String := all.filterMap literal?

theorem nodup_literals : literals.Nodup := by
  decide +kernel

theorem isKeyword_eq_isWord : ∀ t ∈ all, ∀ text ∈ t.literal?, t.isKeyword = isWord text := by
  decide +kernel

end Terminal

namespace Suggestion

variable {seen : List String} {xs ys : List Suggestion} {s : Suggestion} {table : SymbolTable} {filter : Filter}
  {operators : Bool} {typed label : String} {kind : SymbolKind} {expected : List Terminal}

/-! ## The first of each label -/

/-- What is kept is the first with its label. -/
theorem mem_distinctFrom : s ∈ distinctFrom seen xs ↔ s.label ∉ seen ∧ xs.find? (·.label == s.label) = some s := by
  induction xs generalizing seen with
  | nil => simp [distinctFrom]
  | cons x xs ih =>
      rw [distinctFrom]
      by_cases hx : x.label = s.label
      · rw [List.find?_cons_of_pos (by simpa using hx)]
        by_cases hseen : x.label ∈ seen
        · simp [hseen, ih, ← hx]
        · simp [hseen, ih, ← hx, eq_comm (a := s)]
      · rw [List.find?_cons_of_neg (by simpa using hx)]
        by_cases hseen : x.label ∈ seen
        · simp [hseen, ih]
        · have hne : s ≠ x := fun he => hx (congrArg Suggestion.label he.symm)
          simp [hseen, ih, hne, Ne.symm hx]

theorem distinctFrom_sublist (seen : List String) (xs : List Suggestion) : (distinctFrom seen xs).Sublist xs := by
  induction xs generalizing seen with
  | nil => exact .slnil
  | cons x xs ih =>
      rw [distinctFrom]
      split
      · exact .cons x (ih seen)
      · exact .cons_cons x (ih _)

theorem nodup_distinctFrom (seen : List String) (xs : List Suggestion) :
    ((distinctFrom seen xs).map Suggestion.label).Nodup := by
  induction xs generalizing seen with
  | nil => exact List.nodup_nil
  | cons x xs ih =>
      rw [distinctFrom]
      split
      · exact ih seen
      · rw [List.map_cons, List.nodup_cons]
        refine ⟨fun hx => ?_, ih (x.label :: seen)⟩
        obtain ⟨s, hs, hlabel⟩ := List.mem_map.mp hx
        exact label_of_mem_distinctFrom hs (hlabel ▸ List.mem_cons_self)

/-- What is kept comes in the order in which the labels came first. -/
theorem pairwise_distinctFrom (seen : List String) (xs : List Suggestion) :
    (distinctFrom seen xs).Pairwise fun s s' =>
      (xs.map Suggestion.label).idxOf s.label < (xs.map Suggestion.label).idxOf s'.label := by
  induction xs generalizing seen with
  | nil => exact .nil
  | cons x xs ih =>
      -- None of the labels that are kept from the rest is that of the first, so all are one place further on.
      have hlater {seen : List String} (hx : x.label ∈ seen) : (distinctFrom seen xs).Pairwise fun s s' =>
          ((x :: xs).map Suggestion.label).idxOf s.label < ((x :: xs).map Suggestion.label).idxOf s'.label := by
        refine (ih seen).imp_of_mem fun {s s'} hs hs' hlt => ?_
        have hne : x.label ≠ s.label := fun he => label_of_mem_distinctFrom hs (he ▸ hx)
        have hne' : x.label ≠ s'.label := fun he => label_of_mem_distinctFrom hs' (he ▸ hx)
        rw [List.map_cons, List.idxOf_cons_ne _ hne, List.idxOf_cons_ne _ hne']
        exact Nat.succ_lt_succ hlt
      rw [distinctFrom]
      split
      · rename_i hx
        exact hlater (List.contains_iff_mem.mp hx)
      · refine .cons (fun s hs => ?_) (hlater List.mem_cons_self)
        have hne : x.label ≠ s.label := fun he => label_of_mem_distinctFrom hs (he ▸ List.mem_cons_self)
        rw [List.map_cons, List.idxOf_cons_self, List.idxOf_cons_ne _ hne]
        exact Nat.succ_pos _

/-! ## Places -/

/-- Dropping others changes nothing in which of two comes first. -/
theorem idxOf_lt_of_filter {p : String → Bool} {order : List String} {a b : String} (hb : p b)
    (h : (order.filter p).idxOf a < (order.filter p).idxOf b) : order.idxOf a < order.idxOf b := by
  induction order with
  | nil => exact h
  | cons x order ih =>
      by_cases hxb : x = b
      · rw [List.filter_cons_of_pos (by rwa [hxb]), List.idxOf_cons_eq _ hxb] at h
        exact absurd h (Nat.not_lt_zero _)
      · rw [List.idxOf_cons_ne _ hxb]
        by_cases hxa : x = a
        · rw [List.idxOf_cons_eq _ hxa]
          exact Nat.succ_pos _
        · rw [List.idxOf_cons_ne _ hxa]
          refine Nat.succ_lt_succ (ih ?_)
          by_cases hx : p x
          · rw [List.filter_cons_of_pos hx, List.idxOf_cons_ne _ hxa, List.idxOf_cons_ne _ hxb] at h
            exact Nat.lt_of_succ_lt_succ h
          · rwa [List.filter_cons_of_neg hx] at h

theorem pairwise_idxOf_of_sublist {order labels : List String} (h : labels.Sublist order) (hn : order.Nodup) :
    labels.Pairwise fun a b => order.idxOf a < order.idxOf b := by
  refine List.Pairwise.sublist h ?_
  rw [List.pairwise_iff_getElem]
  intro i j hi hj hij
  rwa [hn.idxOf_getElem, hn.idxOf_getElem]

/-! ## Keywords -/

/-- A literal as a suggestion. -/
def ofLiteral (text : String) : Suggestion :=
  ⟨text, none⟩

theorem find?_ofLiteral (texts : List String) (label : String) :
    (texts.map ofLiteral).find? (·.label == label) = if label ∈ texts then some (ofLiteral label) else none := by
  induction texts with
  | nil => rfl
  | cons text texts ih =>
      rw [List.map_cons]
      by_cases ht : text = label
      · rw [List.find?_cons_of_pos (by simpa [ofLiteral] using ht), ht, if_pos List.mem_cons_self]
      · rw [List.find?_cons_of_neg (by simpa [ofLiteral] using ht), ih]
        simp [Ne.symm ht]

theorem mem_literals : label ∈ literals operators expected ↔
    ∃ t ∈ expected, t.literal? = some label ∧ (isWord label ∨ operators) := by
  simp only [literals, List.mem_filterMap, List.mem_filter, Bool.or_eq_true]
  refine exists_congr fun t => ⟨fun ⟨⟨ht, hk⟩, hl⟩ => ⟨ht, hl, ?_⟩, fun ⟨ht, hl, hw⟩ => ⟨⟨ht, ?_⟩, hl⟩⟩
  · rwa [← Terminal.isKeyword_eq_isWord t t.mem_all label hl]
  · rwa [Terminal.isKeyword_eq_isWord t t.mem_all label hl]

/-! ## Names -/

theorem mem_names (h : s ∈ names filter typed expected table) : .name ∈ expected ∧ filter.admits typed s.label := by
  unfold names at h
  split at h
  · rename_i hname
    obtain ⟨entry, hentry, rfl⟩ := List.mem_map.mp h
    exact ⟨List.contains_iff_mem.mp hname, (List.mem_filter.mp hentry).2⟩
  · cases h

/-- A name that passes stands for what the first entry of that name says. -/
theorem find?_names (hn : .name ∈ expected) (ha : filter.admits typed label) :
    (names filter typed expected table).find? (·.label == label) =
      (table.find? (·.name == label)).map ofEntry := by
  rw [names, if_pos (List.contains_iff_mem.mpr hn), List.find?_map, List.find?_filter]
  congr 2
  funext entry
  by_cases he : entry.name = label
  · simp [ofEntry, he, ha]
  · simp [ofEntry, he]

theorem map_label_names (hn : .name ∈ expected) :
    (names filter typed expected table).map Suggestion.label = table.names.filter (filter.admits typed) := by
  rw [names, if_pos (List.contains_iff_mem.mpr hn), List.map_map, SymbolTable.names, List.filter_map]
  rfl

/-! ## Listings -/

/-- Keywords come before names; keywords are in grammar order, and names in the order of their first entries. -/
def Precedes (table : SymbolTable) : Suggestion → Suggestion → Prop
  | ⟨label, none⟩, ⟨label', none⟩ => Terminal.literals.idxOf label < Terminal.literals.idxOf label'
  | ⟨_, none⟩, ⟨_, some _⟩ => True
  | ⟨_, some _⟩, ⟨_, none⟩ => False
  | ⟨label, some _⟩, ⟨label', some _⟩ => table.names.idxOf label < table.names.idxOf label'

/-- The suggestions where some terminals are expected and a text has been typed. -/
structure Listing (filter : Filter) (operators : Bool) (table : SymbolTable) (typed : String)
    (expected : List Terminal) (suggestions : List Suggestion) : Prop where
  nodup : (suggestions.map Suggestion.label).Nodup
  ordered : suggestions.Pairwise (Precedes table)
  /-- A keyword is the literal of an expected terminal that passes the filter. It is a word, unless operators are wanted
  too. -/
  keyword_iff : ∀ label, ⟨label, none⟩ ∈ suggestions ↔
    ∃ t ∈ expected, t.literal? = some label ∧ (isWord label ∨ operators) ∧ filter.admits typed label
  /-- A name is one of the table that passes the filter, where a name is expected, and no keyword. It stands for what its
  first entry says. -/
  symbol_iff : ∀ label kind, ⟨label, some kind⟩ ∈ suggestions ↔
    .name ∈ expected ∧ filter.admits typed label ∧ ⟨label, none⟩ ∉ suggestions ∧
      ∃ entry, table.find? (·.name == label) = some entry ∧ entry.kind = kind

theorem Precedes.asymm {s s' : Suggestion} (h : Precedes table s s') : ¬ Precedes table s' s := by
  obtain ⟨label, symbol⟩ := s
  obtain ⟨label', symbol'⟩ := s'
  cases symbol <;> cases symbol' <;> simp_all [Precedes, Nat.le_of_lt]

/-- No two lists fit one description. -/
theorem Listing.unique (hx : Listing filter operators table typed expected xs)
    (hy : Listing filter operators table typed expected ys) : xs = ys := by
  have hkeyword (label : String) : (⟨label, none⟩ : Suggestion) ∈ xs ↔ ⟨label, none⟩ ∈ ys := by
    rw [hx.keyword_iff, hy.keyword_iff]
  have hmem : ∀ s, s ∈ xs ↔ s ∈ ys := by
    rintro ⟨label, _ | kind⟩
    · exact hkeyword label
    · rw [hx.symbol_iff, hy.symbol_iff, hkeyword]
  have hperm := (List.perm_ext_iff_of_nodup (.of_map _ hx.nodup) (.of_map _ hy.nodup)).mpr hmem
  exact hperm.eq_of_pairwise (fun _ _ _ _ h h' => absurd h' h.asymm) hx.ordered hy.ordered

theorem pairwise_ofLiteral {texts : List String} (h : texts.Sublist Terminal.literals) (seen : List String) :
    (distinctFrom seen (texts.map ofLiteral)).Pairwise (Precedes table) := by
  refine List.Pairwise.sublist (distinctFrom_sublist seen _) ?_
  rw [List.pairwise_map]
  exact pairwise_idxOf_of_sublist h Terminal.nodup_literals

theorem pairwise_names (filter : Filter) (typed : String) (expected : List Terminal) (seen : List String) :
    (distinctFrom seen (names filter typed expected table)).Pairwise (Precedes table) := by
  refine (pairwise_distinctFrom seen _).imp_of_mem fun {s s'} hs hs' hlt => ?_
  have hname := mem_names (mem_of_mem_distinctFrom hs)
  have hname' := mem_names (mem_of_mem_distinctFrom hs')
  obtain ⟨entry, _, rfl⟩ := mem_of_mem_names (mem_of_mem_distinctFrom hs)
  obtain ⟨entry', _, rfl⟩ := mem_of_mem_names (mem_of_mem_distinctFrom hs')
  rw [map_label_names hname.1] at hlt
  exact idxOf_lt_of_filter hname'.2 hlt

theorem ofExpected_eq_distinctFrom : ofExpected filter operators table typed expected =
    distinctFrom [] ((filter.keep typed (literals operators expected)).map ofLiteral ++
      names filter typed expected table) :=
  ofExpected_eq filter operators table typed expected

theorem pairwise_ofExpected (hexpected : expected.Sublist Terminal.all) :
    (ofExpected filter operators table typed expected).Pairwise (Precedes table) := by
  have hkept : (filter.keep typed (literals operators expected)).Sublist Terminal.literals :=
    (filter.keep_sublist _ _).trans ((List.filter_sublist.trans hexpected).filterMap _)
  obtain ⟨seen, happend, -, -⟩ := distinctFrom_append [] ((filter.keep typed (literals operators expected)).map ofLiteral)
    (names filter typed expected table)
  rw [ofExpected_eq_distinctFrom, happend, List.pairwise_append]
  refine ⟨pairwise_ofLiteral hkept [], pairwise_names filter typed expected seen, fun s hs s' hs' => ?_⟩
  obtain ⟨text, _, rfl⟩ := List.mem_map.mp (mem_of_mem_distinctFrom hs)
  obtain ⟨entry, _, rfl⟩ := mem_of_mem_names (mem_of_mem_distinctFrom hs')
  exact trivial

/-- What is suggested is the first with its label: a keyword if there is one, else a name. -/
theorem mem_ofExpected : s ∈ ofExpected filter operators table typed expected ↔
    (if s.label ∈ filter.keep typed (literals operators expected) then some (ofLiteral s.label)
      else (names filter typed expected table).find? (·.label == s.label)) = some s := by
  rw [ofExpected_eq_distinctFrom, mem_distinctFrom, List.find?_append, find?_ofLiteral]
  split <;> simp

theorem keyword_mem_ofExpected : ⟨label, none⟩ ∈ ofExpected filter operators table typed expected ↔
    label ∈ filter.keep typed (literals operators expected) := by
  rw [mem_ofExpected]
  split
  · rename_i hlabel
    simp [hlabel, ofLiteral]
  · rename_i hlabel
    refine iff_of_false (fun hfind => ?_) hlabel
    obtain ⟨entry, _, he⟩ := mem_of_mem_names (List.mem_of_find?_eq_some hfind)
    cases he

theorem symbol_mem_ofExpected : ⟨label, some kind⟩ ∈ ofExpected filter operators table typed expected ↔
    .name ∈ expected ∧ filter.admits typed label ∧ label ∉ filter.keep typed (literals operators expected) ∧
      ∃ entry, table.find? (·.name == label) = some entry ∧ entry.kind = kind := by
  rw [mem_ofExpected]
  split
  · rename_i hlabel
    simp [hlabel, ofLiteral]
  · rename_i hlabel
    constructor
    · intro hfind
      obtain ⟨hn, ha⟩ := mem_names (List.mem_of_find?_eq_some hfind)
      rw [find?_names hn ha, Option.map_eq_some_iff] at hfind
      obtain ⟨entry, hentry, he⟩ := hfind
      exact ⟨hn, ha, hlabel, entry, hentry, by simpa [ofEntry] using congrArg Suggestion.symbol he⟩
    · rintro ⟨hn, ha, -, entry, hentry, rfl⟩
      have hname : entry.name = label := by simpa using List.find?_some hentry
      rw [find?_names hn ha, hentry, Option.map_some, ofEntry, hname]

theorem listing_ofExpected (hexpected : expected.Sublist Terminal.all) :
    Listing filter operators table typed expected (ofExpected filter operators table typed expected) where
  nodup := by
    rw [ofExpected_eq_distinctFrom]
    exact nodup_distinctFrom [] _
  ordered := pairwise_ofExpected hexpected
  keyword_iff label := by
    rw [keyword_mem_ofExpected, Filter.keep, List.mem_filter, mem_literals]
    constructor
    · rintro ⟨⟨t, ht, hl, hw⟩, ha⟩
      exact ⟨t, ht, hl, hw, ha⟩
    · rintro ⟨t, ht, hl, hw, ha⟩
      exact ⟨⟨t, ht, hl, hw⟩, ha⟩
  symbol_iff label kind := by
    rw [symbol_mem_ofExpected, keyword_mem_ofExpected]

end Suggestion

/-- Expected terminals come in grammar order. -/
theorem expectedTerminals_sublist (tokens : List Token) (last : Int) :
    (expectedTerminals tokens last).Sublist Terminal.all :=
  List.filter_sublist

/-- The suggestions at a caret are the one list that fits the description: labels are distinct, keywords come before names,
and which labels there are, and in which order, is told by the grammar, the table and the filter. -/
theorem suggest_eq_iff (filter : Filter) (operators : Bool) (p : Parse) (table : SymbolTable) (c : Caret)
    (suggestions : List Suggestion) :
    Suggestion.suggest filter operators p table c = suggestions ↔
      Suggestion.Listing filter operators table (Cursor.locate p c).typed
        (expectedTerminals p.tokens (Cursor.locate p c).index) suggestions := by
  have hlisting : Suggestion.Listing filter operators table (Cursor.locate p c).typed
      (expectedTerminals p.tokens (Cursor.locate p c).index) (Suggestion.suggest filter operators p table c) :=
    Suggestion.listing_ofExpected (expectedTerminals_sublist _ _)
  constructor
  · rintro rfl
    exact hlisting
  · exact hlisting.unique

-- A name that was declared twice, and one that is offered as a keyword already.
example : Suggestion.suggest .fuzzy false (parse "val n = n")
    [⟨"n", .value, none, 1, 4⟩, ⟨"null", .type, none, 2, 0⟩, ⟨"n", .function, none, 3, 0⟩] ⟨1, 9⟩ =
      [⟨"null", none⟩, ⟨"n", some .value⟩] := by
  decide +kernel

end Typeahead
