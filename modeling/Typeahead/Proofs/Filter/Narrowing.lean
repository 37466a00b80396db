import Mathlib.Data.List.NodupEquivFin
import Typeahead.Proofs.Suggestion.Distinct
import Typeahead.Server.Session

/-!
Narrowing candidates step by step. What passes a filter once more has been typed passed it before, so candidates that
were dropped need not be looked at again: the list for a longer text can be found in the list for a shorter one.
-/

namespace Typeahead

/-! ## Filters -/

namespace Filter

/-- Whether a text can be found in another, with more between its characters: each has a place there, further on than
the places of those before it. -/
def Embeds (xs ys : List Char) : Prop :=
  ∃ place : Fin xs.length ↪o Fin ys.length, ∀ i, xs.get i = ys.get (place i)

theorem embeds_iff_sublist {xs ys : List Char} : Embeds xs ys ↔ xs.Sublist ys :=
  List.sublist_iff_exists_fin_orderEmbedding_get_eq.symm

instance Embeds.decidable (xs ys : List Char) : Decidable (Embeds xs ys) :=
  decidable_of_iff (xs.Sublist ys) embeds_iff_sublist.symm

variable {f : Filter} {typed more candidate : String}

/-- Looking for each character behind the last one that was found misses nothing. -/
theorem admits_fuzzy_iff (ht : Text.isAscii typed.toList) (hc : Text.isAscii candidate.toList) :
    fuzzy.admits typed candidate ↔ Embeds (typed.toList.map Char.toLower) (candidate.toList.map Char.toLower) := by
  rw [admits, Text.lowercase_eq_map ht, Text.lowercase_eq_map hc, List.isSublist_iff_sublist, embeds_iff_sublist]

theorem admits_fuzzy_of_beginning (ht : Text.isAscii typed.toList) (h : beginning.admits typed candidate) :
    fuzzy.admits typed candidate := by
  obtain ⟨rest, hrest⟩ := List.isPrefixOf_iff_prefix.mp h
  rw [admits, List.isSublist_iff_sublist, ← hrest, Text.lowercase_append ht, Text.lowercase_eq_map ht]
  exact List.sublist_append_left _ _

/-- A filter never gets weaker as more is typed. -/
theorem admits_of_append (f : Filter) (ht : Text.isAscii typed.toList) (h : f.admits (typed ++ more) candidate) :
    f.admits typed candidate := by
  cases f with
  | fuzzy =>
      rw [admits, List.isSublist_iff_sublist, String.toList_append, Text.lowercase_append ht] at h
      rw [admits, List.isSublist_iff_sublist, Text.lowercase_eq_map ht]
      exact (List.sublist_append_left _ _).trans h
  | beginning =>
      rw [admits, List.isPrefixOf_iff_prefix, String.toList_append] at h
      rw [admits, List.isPrefixOf_iff_prefix]
      exact (List.prefix_append _ _).trans h
  | everything => rfl

theorem admits_append_and (f : Filter) (ht : Text.isAscii typed.toList) (candidate : String) :
    (f.admits (typed ++ more) candidate && f.admits typed candidate) = f.admits (typed ++ more) candidate := by
  rw [Bool.and_eq_left_iff_imp]
  exact f.admits_of_append ht

theorem keep_append (f : Filter) (ht : Text.isAscii typed.toList) (candidates : List String) :
    f.keep (typed ++ more) (f.keep typed candidates) = f.keep (typed ++ more) candidates := by
  simp only [keep, List.filter_filter, f.admits_append_and ht]

end Filter

/-! ## Lists of suggestions -/

namespace Suggestion

theorem filter_names (f : Filter) {typed more : String} (ht : Text.isAscii typed.toList) (expected : List Terminal)
    (table : SymbolTable) :
    (names f typed expected table).filter (fun s => f.admits (typed ++ more) s.label) =
      names f (typed ++ more) expected table := by
  unfold names
  split
  · rw [List.filter_map, List.filter_filter]
    simp only [Function.comp_def, ofEntry, f.admits_append_and ht]
  · rfl

/-- The suggestions for a longer text are those for a shorter one whose labels still pass. -/
theorem filter_ofExpected (f : Filter) (operators : Bool) {typed more : String} (ht : Text.isAscii typed.toList)
    (table : SymbolTable) (expected : List Terminal) :
    (ofExpected f operators table typed expected).filter (fun s => f.admits (typed ++ more) s.label) =
      ofExpected f operators table (typed ++ more) expected := by
  have hkeywords : (List.map (⟨·, none⟩) (f.keep typed (literals operators expected))).filter
      (fun s : Suggestion => f.admits (typed ++ more) s.label) =
        (f.keep (typed ++ more) (literals operators expected)).map (⟨·, none⟩) := by
    rw [List.filter_map, ← f.keep_append ht]
    rfl
  rw [ofExpected_eq, distinct, filter_distinctFrom, List.filter_append, filter_names f ht, hkeywords, ofExpected_eq,
    distinct]

end Suggestion

/-- A list of items that is sent to the editor is never marked as incomplete. -/
theorem Session.incomplete_of_complete {s : Session} {uri : String} {line character : Int} {list : ItemList}
    (h : (s.step (.complete uri line character)).2.result = .ok (.items list)) : list.incomplete = false := by
  simp only [step] at h
  split at h
  · cases h
  · split at h
    · simp only [Manager.complete] at h
      cases hr : (Manager.collect ⟨uri, _⟩ s.manager.completers).2.result with
      | error e =>
          rw [hr] at h
          cases h
      | ok items =>
          rw [hr] at h
          cases h
          rfl
    · cases h
      rfl

/-- In ASCII, the fuzzy filter keeps the candidates that the typed text is embedded in, in any case; it keeps all that
begin with the typed text, and no filter changes the order. What is kept for a longer text is what a filter keeps of
what it kept for a shorter one. So are the suggestions for it, and lists of them are sent as complete ones. -/
theorem filters_narrow (typed more : String) (candidates : List String) (ht : Text.isAscii typed.toList)
    (hc : ∀ candidate ∈ candidates, Text.isAscii candidate.toList) :
    Filter.fuzzy.keep typed candidates = candidates.filter (fun candidate =>
      Filter.Embeds (typed.toList.map Char.toLower) (candidate.toList.map Char.toLower)) ∧
    (Filter.beginning.keep typed candidates).Sublist (Filter.fuzzy.keep typed candidates) ∧
    (Filter.fuzzy.keep typed candidates).Sublist (Filter.everything.keep typed candidates) ∧
    Filter.everything.keep typed candidates = candidates ∧
    (∀ f : Filter, f.keep (typed ++ more) (f.keep typed candidates) = f.keep (typed ++ more) candidates ∧
      ∀ operators table expected,
        (Suggestion.ofExpected f operators table typed expected).filter (fun s => f.admits (typed ++ more) s.label) =
          Suggestion.ofExpected f operators table (typed ++ more) expected) ∧
    ∀ (s : Session) (uri : String) (line character : Int) (list : ItemList),
      (s.step (.complete uri line character)).2.result = .ok (.items list) → list.incomplete = false := by
  have hall : Filter.everything.keep typed candidates = candidates := List.filter_true candidates
  refine ⟨List.filter_congr fun candidate hmem => ?_, ?_, ?_, hall,
    fun f => ⟨f.keep_append ht candidates, fun operators => Suggestion.filter_ofExpected f operators ht⟩,
    fun s uri line character list => Session.incomplete_of_complete⟩
  · rw [Bool.eq_iff_iff, decide_eq_true_iff]
    exact Filter.admits_fuzzy_iff ht (hc candidate hmem)
  · exact List.monotone_filter_right candidates fun candidate => Filter.admits_fuzzy_of_beginning ht
  · rw [hall]
    exact Filter.keep_sublist _ _ _

/-- One letter more in the other case; of the candidates that are left, one does not begin with what was typed. -/
theorem filters_narrow_one_letter :
    let candidates := ["getValue", "agent", "gEt", "eg"]
    Text.isAscii "gE".toList ∧ (∀ candidate ∈ candidates, Text.isAscii candidate.toList) ∧
    Filter.fuzzy.keep "gE" candidates = ["getValue", "agent", "gEt"] ∧
    Filter.fuzzy.keep ("gE" ++ "t") ["getValue", "agent", "gEt"] = Filter.fuzzy.keep ("gE" ++ "t") candidates ∧
    Filter.beginning.keep "gE" candidates = ["gEt"] ∧
    ["gEt"].Sublist (Filter.fuzzy.keep "gE" candidates) := by
  have hascii : Text.isAscii "gE".toList := by decide
  have hall : ∀ candidate ∈ ["getValue", "agent", "gEt", "eg"], Text.isAscii candidate.toList := by decide
  have hfuzzy : Filter.fuzzy.keep "gE" ["getValue", "agent", "gEt", "eg"] = ["getValue", "agent", "gEt"] := by decide
  have hbeginning : Filter.beginning.keep "gE" ["getValue", "agent", "gEt", "eg"] = ["gEt"] := by decide
  obtain ⟨_, hsublist, _, _, hnarrow, _⟩ := filters_narrow "gE" "t" _ hascii hall
  have hkeep := (hnarrow .fuzzy).1
  rw [hfuzzy] at hkeep
  rw [hbeginning] at hsublist
  exact ⟨hascii, hall, hfuzzy, hkeep, hbeginning, hsublist⟩

end Typeahead
