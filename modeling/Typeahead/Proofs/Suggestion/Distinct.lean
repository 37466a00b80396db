import Typeahead.Suggestion

/-!
Suggestions and their labels. Of suggestions with one label the first is kept, so what comes later only adds; and which
names are suggested is decided name by name.
-/

namespace Typeahead.Suggestion

/-! ## Labels -/

theorem mem_of_mem_distinctFrom {seen : List String} {xs : List Suggestion} {s : Suggestion}
    (h : s ∈ distinctFrom seen xs) : s ∈ xs := by
  induction xs generalizing seen with
  | nil => exact h
  | cons x xs ih =>
      rw [distinctFrom] at h
      split at h
      · exact List.mem_cons_of_mem x (ih h)
      · rcases List.mem_cons.mp h with rfl | h
        · exact List.mem_cons_self
        · exact List.mem_cons_of_mem x (ih h)

theorem label_of_mem_distinctFrom {seen : List String} {xs : List Suggestion} {s : Suggestion}
    (h : s ∈ distinctFrom seen xs) : s.label ∉ seen := by
  induction xs generalizing seen with
  | nil => cases h
  | cons x xs ih =>
      rw [distinctFrom] at h
      split at h
      · exact ih h
      · rename_i hx
        rcases List.mem_cons.mp h with rfl | h
        · simpa using hx
        · exact fun hs => ih h (List.mem_cons_of_mem _ hs)

/-- What comes later changes nothing in what came before, and adds none of its labels. -/
theorem distinctFrom_append (seen : List String) (xs ys : List Suggestion) :
    ∃ seen', distinctFrom seen (xs ++ ys) = distinctFrom seen xs ++ distinctFrom seen' ys ∧ seen ⊆ seen' ∧
      ∀ s ∈ distinctFrom seen xs, s.label ∈ seen' := by
  induction xs generalizing seen with
  | nil => exact ⟨seen, rfl, List.Subset.refl _, fun _ hs => nomatch hs⟩
  | cons x xs ih =>
      rw [List.cons_append, distinctFrom, distinctFrom]
      split
      · exact ih seen
      · obtain ⟨seen', h, hseen, hlabels⟩ := ih (x.label :: seen)
        rw [List.cons_subset] at hseen
        exact ⟨seen', by rw [h, List.cons_append], hseen.2, List.forall_mem_cons.mpr ⟨hseen.1, hlabels⟩⟩

theorem filter_distinct_append {keywords names : List Suggestion} (hk : ∀ s ∈ keywords, s.symbol = none)
    (hn : ∀ s ∈ names, s.symbol ≠ none) :
    (distinct (keywords ++ names)).filter (·.symbol.isNone) = distinct keywords := by
  obtain ⟨seen, h, -, -⟩ := distinctFrom_append [] keywords names
  have hkeywords : ∀ s ∈ distinct keywords, s.symbol.isNone := fun s hs => by
    simpa using hk s (mem_of_mem_distinctFrom hs)
  have hnames : (distinctFrom seen names).filter (·.symbol.isNone) = [] := by
    rw [List.filter_eq_nil_iff]
    exact fun s hs => by simpa using hn s (mem_of_mem_distinctFrom hs)
  rw [distinct, h, List.filter_append, hnames, List.append_nil]
  exact List.filter_eq_self.mpr hkeywords

theorem distinctFrom_congr {seen seen' : List String} {xs : List Suggestion}
    (h : ∀ s ∈ xs, s.label ∈ seen ↔ s.label ∈ seen') : distinctFrom seen xs = distinctFrom seen' xs := by
  induction xs generalizing seen seen' with
  | nil => rfl
  | cons x xs ih =>
      obtain ⟨hx, hxs⟩ := List.forall_mem_cons.mp h
      have hcontains : seen.contains x.label = seen'.contains x.label := by
        rw [Bool.eq_iff_iff, List.contains_iff_mem, List.contains_iff_mem, hx]
      have hlater : distinctFrom (x.label :: seen) xs = distinctFrom (x.label :: seen') xs :=
        ih fun s hs => by rw [List.mem_cons, List.mem_cons, hxs s hs]
      rw [distinctFrom, distinctFrom, hcontains, ih hxs, hlater]

/-- Labels can be dropped before or after the first suggestion with each is found. -/
theorem filter_distinctFrom (p : String → Bool) (seen : List String) (xs : List Suggestion) :
    (distinctFrom seen xs).filter (fun s => p s.label) = distinctFrom seen (xs.filter fun s => p s.label) := by
  induction xs generalizing seen with
  | nil => rfl
  | cons x xs ih =>
      cases hp : p x.label with
      | true =>
          rw [List.filter_cons_of_pos (by simp [hp]), distinctFrom, distinctFrom]
          split
          · exact ih seen
          · rw [List.filter_cons_of_pos (by simp [hp]), ih]
      | false =>
          rw [List.filter_cons_of_neg (by simp [hp]), distinctFrom]
          split
          · exact ih seen
          · -- That the label has been seen makes no difference where it cannot come again.
            rw [List.filter_cons_of_neg (by simp [hp]), ih]
            refine distinctFrom_congr fun s hs => ?_
            have hne : s.label ≠ x.label := by
              intro he
              have hps := (List.mem_filter.mp hs).2
              rw [he, hp] at hps
              cases hps
            simp [hne]

/-! ## Keywords and names -/

/-- Names have no part in which keywords are suggested. -/
theorem keywords_ofExpected (filter : Filter) (operators : Bool) (table : SymbolTable) (typed : String)
    (expected : List Terminal) :
    (ofExpected filter operators table typed expected).filter (·.symbol.isNone) =
      distinct ((filter.keep typed (literals operators expected)).map (⟨·, none⟩)) := by
  refine filter_distinct_append (fun s hs => ?_) fun s hs => ?_
  · obtain ⟨_, _, rfl⟩ := List.mem_map.mp hs
    rfl
  · split at hs
    · obtain ⟨_, _, rfl⟩ := List.mem_map.mp hs
      simp
    · cases hs

/-- An entry of a table as a suggestion. -/
def ofEntry (entry : SymbolEntry) : Suggestion :=
  ⟨entry.name, some entry.kind⟩

/-- The names that are suggested of a table, if the grammar takes one: each on its own merits. -/
def names (filter : Filter) (typed : String) (expected : List Terminal) (table : SymbolTable) : List Suggestion :=
  if expected.contains .name then (table.filter fun entry => filter.admits typed entry.name).map ofEntry else []

theorem names_append (filter : Filter) (typed : String) (expected : List Terminal) (table more : SymbolTable) :
    names filter typed expected (table ++ more) =
      names filter typed expected table ++ names filter typed expected more := by
  unfold names
  split <;> simp

theorem mem_of_mem_names {filter : Filter} {typed : String} {expected : List Terminal} {table : SymbolTable}
    {s : Suggestion} (h : s ∈ names filter typed expected table) : ∃ entry ∈ table, s = ofEntry entry := by
  unfold names at h
  split at h
  · obtain ⟨entry, hentry, rfl⟩ := List.mem_map.mp h
    exact ⟨entry, (List.mem_filter.mp hentry).1, rfl⟩
  · cases h

/-- That a name has passed the filter because of one entry admits no other entry that would not pass itself. -/
theorem ofExpected_eq (filter : Filter) (operators : Bool) (table : SymbolTable) (typed : String)
    (expected : List Terminal) :
    ofExpected filter operators table typed expected =
      distinct ((filter.keep typed (literals operators expected)).map (⟨·, none⟩) ++
        names filter typed expected table) := by
  have hpasses : ∀ entry ∈ table,
      (filter.keep typed table.names).contains entry.name = filter.admits typed entry.name := by
    intro entry hentry
    have hname : entry.name ∈ table.names := List.mem_map_of_mem hentry
    rw [Bool.eq_iff_iff, List.contains_iff_mem, Filter.keep, List.mem_filter]
    exact ⟨And.right, fun h => ⟨hname, h⟩⟩
  rw [ofExpected, names, List.filter_congr hpasses]
  rfl

/-- More entries at the end of a table add suggestions at the end, with labels of their own. -/
theorem suggest_append (filter : Filter) (operators : Bool) (p : Parse) (table more : SymbolTable) (c : Caret) :
    ∃ added, suggest filter operators p (table ++ more) c = suggest filter operators p table c ++ added ∧
      ∀ s ∈ added, s.label ∉ (suggest filter operators p table c).map label ∧ ∃ entry ∈ more, s = ofEntry entry := by
  simp only [suggest, atCursor, ofExpected_eq, names_append, ← List.append_assoc]
  obtain ⟨seen, h, -, hlabels⟩ := distinctFrom_append []
    (List.map (⟨·, none⟩) (filter.keep (Cursor.locate p c).typed
      (literals operators (expectedTerminals p.tokens (Cursor.locate p c).index))) ++
      names filter (Cursor.locate p c).typed (expectedTerminals p.tokens (Cursor.locate p c).index) table)
    (names filter (Cursor.locate p c).typed (expectedTerminals p.tokens (Cursor.locate p c).index) more)
  refine ⟨_, h, fun s hs => ⟨fun hmem => ?_, mem_of_mem_names (mem_of_mem_distinctFrom hs)⟩⟩
  obtain ⟨s', hs', hlabel⟩ := List.mem_map.mp hmem
  exact label_of_mem_distinctFrom hs (hlabel ▸ hlabels s' hs')

end Typeahead.Suggestion
