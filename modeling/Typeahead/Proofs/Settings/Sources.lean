import Typeahead.Settings

/-!
Settings and their sources. A source has a value for some of the settings; the filter is the only one whose value can be
wrong. Settings that are merged with a source take over what it has and keep the rest. All of it holds for any reader of
settings files.
-/

namespace Typeahead

/-- Whether a value can be looked up among names. What is made of other values cannot. -/
def Value.isHashable : Value → Bool
  | .list _ | .map _ => false
  | .object o => o.hashable
  | _ => true

namespace Filter

variable {v : Value} {f : Filter} {name : String}

theorem label_of_ofLabel? (h : ofLabel? name = some f) : name = f.label := by
  unfold ofLabel? at h
  split at h <;> cases h <;> rfl

/-- A value names a filter exactly if it is the text of its label. -/
theorem ofValue_eq_ok_iff : ofValue v = .ok f ↔ v = .str f.label := by
  constructor
  · intro h
    cases v with
    | str name =>
        rw [ofValue] at h
        split at h <;> cases h
        rename_i hlabel
        rw [label_of_ofLabel? hlabel]
    | int n =>
        rw [ofValue] at h
        split at h <;> cases h
    | bool b => cases b <;> cases h
    | _ => cases h
  · rintro rfl
    rw [ofValue, ofLabel?_label]

theorem isLookupFailure_of_error {e : FilterNameError} (h : ofValue v = .error e) :
    e.isLookupFailure = !v.isHashable := by
  cases v with
  | str name =>
      rw [ofValue] at h
      split at h <;> cases h
      rfl
  | int n =>
      rw [ofValue] at h
      split at h <;> cases h <;> rfl
  | bool b => cases b <;> cases h <;> rfl
  | object o =>
      cases h
      cases ho : o.hashable <;> simp [Value.isHashable, ho, FilterNameError.isLookupFailure]
  | _ => cases h; rfl

end Filter

namespace Settings

/-- One of the settings. -/
inductive Field where
  | filter
  | operators
  | trace
  deriving DecidableEq

/-- The name of a setting. -/
def Field.key : Field → String
  | .filter => filterKey
  | .operators => operatorsKey
  | .trace => traceKey

/-- The value of a setting. -/
def get (s : Settings) : Field → Value
  | .filter => .str s.filter.label
  | .operators => s.operators
  | .trace => s.trace

variable {s s' : Settings} {entries : List (Value × Value)}

/-! ## Entries -/

/-- Whether some entries can be used: if they have a filter, it is the text of a label. -/
def Valid (entries : List (Value × Value)) : Prop :=
  ∀ v, Value.find? filterKey entries = some v → ∃ f : Filter, v = .str f.label

/-- The filter that some entries have is none, for the given reason. -/
def Rejects (entries : List (Value × Value)) (e : FilterNameError) : Prop :=
  ∃ v, Value.find? filterKey entries = some v ∧ Filter.ofValue v = .error e

/-- Whether some entries have a filter that cannot be looked up. -/
def HasUnhashable (entries : List (Value × Value)) : Prop :=
  ∃ v, Value.find? filterKey entries = some v ∧ v.isHashable = false

theorem Rejects.not_valid {e : FilterNameError} (h : Rejects entries e) : ¬ Valid entries := by
  obtain ⟨v, hv, he⟩ := h
  intro hvalid
  obtain ⟨f, hf⟩ := hvalid v hv
  rw [Filter.ofValue_eq_ok_iff.mpr hf] at he
  cases he

theorem valid_or_rejects (entries : List (Value × Value)) : Valid entries ∨ ∃ e, Rejects entries e := by
  cases hv : Value.find? filterKey entries with
  | none => exact .inl fun v h => by rw [hv] at h; cases h
  | some v =>
      cases hf : Filter.ofValue v with
      | error e => exact .inr ⟨e, v, hv, hf⟩
      | ok f =>
          refine .inl fun w hw => ⟨f, ?_⟩
          rw [hv] at hw
          exact Option.some.inj hw ▸ Filter.ofValue_eq_ok_iff.mp hf

theorem Rejects.isLookupFailure_iff {e : FilterNameError} (h : Rejects entries e) :
    e.isLookupFailure ↔ HasUnhashable entries := by
  obtain ⟨v, hv, he⟩ := h
  rw [Filter.isLookupFailure_of_error he, Bool.not_eq_true']
  refine ⟨fun hc => ⟨v, hv, hc⟩, ?_⟩
  rintro ⟨w, hw, hc⟩
  rw [hv] at hw
  exact Option.some.inj hw ▸ hc

/-! ## Merging -/

/-- Each setting is what the entries have for it, or else as it was. -/
def Merged (s : Settings) (entries : List (Value × Value)) (s' : Settings) : Prop :=
  ∀ field : Field, s'.get field = (Value.find? field.key entries).getD (s.get field)

theorem merge_of_none (h : Value.find? filterKey entries = none) : s.merge entries =
    .ok ⟨s.filter, (Value.find? operatorsKey entries).getD s.operators,
      (Value.find? traceKey entries).getD s.trace⟩ := by
  simp only [merge, h]

theorem merge_of_ok {v : Value} {f : Filter} (h : Value.find? filterKey entries = some v)
    (hf : Filter.ofValue v = .ok f) : s.merge entries =
    .ok ⟨f, (Value.find? operatorsKey entries).getD s.operators, (Value.find? traceKey entries).getD s.trace⟩ := by
  simp only [merge, h, hf]

theorem merge_of_rejects {e : FilterNameError} (h : Rejects entries e) : s.merge entries = .error e := by
  obtain ⟨v, hv, he⟩ := h
  simp only [merge, hv, he]

/-- Valid entries take the place of what there was; what they do not have stays. -/
theorem merge_of_valid (s : Settings) (h : Valid entries) : ∃ s', s.merge entries = .ok s' ∧ s.Merged entries s' := by
  cases hv : Value.find? filterKey entries with
  | none =>
      refine ⟨_, merge_of_none hv, ?_⟩
      rintro (_ | _ | _)
      · rw [Field.key, hv]
        rfl
      all_goals rfl
  | some v =>
      obtain ⟨f, hf⟩ := h v hv
      refine ⟨_, merge_of_ok hv (Filter.ofValue_eq_ok_iff.mpr hf), ?_⟩
      rintro (_ | _ | _)
      · rw [Field.key, hv, hf]
        rfl
      all_goals rfl

/-! ## The file and the options -/

/-- What a value has for the settings: only a map has anything. -/
def entriesOf (v : Value) : List (Value × Value) :=
  v.entries?.getD []

/-- What the options of a client have. -/
def optionEntries (options : Value) : List (Value × Value) :=
  entriesOf (sectionOf options)

/-- What the settings file of a directory has, if it can be read. -/
def fileEntries (read : Reader) (fs : FileSystem) : Option String → Except SettingsError (List (Value × Value))
  | none => .ok []
  | some directory =>
    match fileContent? fs directory with
    | .error e => .error (.file e)
    | .ok none => .ok []
    | .ok (some bytes) => ((read bytes).mapError .document).map entriesOf

theorem mergeValue_eq (s : Settings) (v : Value) : s.mergeValue v = s.merge (entriesOf v) := by
  cases v <;> rfl

variable {read : Reader} {fs : FileSystem} {directory : Option String} {options : Value}

theorem ofWorkspace_eq (read : Reader) (fs : FileSystem) (directory : Option String) : ofWorkspace read fs directory =
    (fileEntries read fs directory).bind fun file => (merge {} file).mapError .filter := by
  cases directory with
  | none => rfl
  | some directory =>
      rw [ofWorkspace, fileEntries]
      cases hc : fileContent? fs directory with
      | error e => rfl
      | ok content =>
          cases content with
          | none => rfl
          | some bytes =>
              cases hr : read bytes with
              | error e => simp only [hr]; rfl
              | ok value => simp only [hr, mergeValue_eq]; rfl

/-- The first thing that is wrong with the file and the options. -/
inductive Fault (read : Reader) (fs : FileSystem) (directory : Option String) (options : Value) : SettingsError → Prop
  | file {e} (he : fileEntries read fs directory = .error e) : Fault read fs directory options e
  | fileFilter {file e} (hf : fileEntries read fs directory = .ok file) (he : Rejects file e) :
      Fault read fs directory options (.filter e)
  | optionsFilter {file e} (hf : fileEntries read fs directory = .ok file) (hv : Valid file)
      (he : Rejects (optionEntries options) e) : Fault read fs directory options (.filter e)

theorem load_eq {file : List (Value × Value)} (h : fileEntries read fs directory = .ok file) :
    load read fs directory options =
      ((merge {} file).bind fun s => s.merge (optionEntries options)).mapError .filter := by
  rw [load, ofWorkspace_eq, h]
  simp only [Except.bind, mergeValue_eq]
  cases merge {} file <;> rfl

/-- Each setting is the last that there is among the default, the file and the options. -/
def Stacked (file options : List (Value × Value)) (s : Settings) : Prop :=
  ∀ field : Field, s.get field =
    ((Value.find? field.key options).or (Value.find? field.key file)).getD (get {} field)

theorem load_of_valid {file : List (Value × Value)} (hfile : fileEntries read fs directory = .ok file)
    (hv : Valid file) (ho : Valid (optionEntries options)) : ∃ s, load read fs directory options = .ok s ∧
      Stacked file (optionEntries options) s := by
  obtain ⟨s, hs, hget⟩ := merge_of_valid {} hv
  obtain ⟨s', hs', hget'⟩ := merge_of_valid s ho
  refine ⟨s', ?_, fun field => ?_⟩
  · rw [load_eq hfile, hs, Except.bind, hs']
    rfl
  · rw [hget', hget]
    cases Value.find? field.key (optionEntries options) <;> rfl

theorem load_of_fault {e : SettingsError} (h : Fault read fs directory options e) :
    load read fs directory options = .error e := by
  cases h with
  | file he =>
      rw [load, ofWorkspace_eq, he]
      rfl
  | fileFilter hf he =>
      rw [load_eq hf, merge_of_rejects he]
      rfl
  | optionsFilter hf hv he =>
      obtain ⟨s, hs, _⟩ := merge_of_valid {} hv
      rw [load_eq hf, hs, Except.bind, merge_of_rejects he]
      rfl

theorem valid_or_fault (read : Reader) (fs : FileSystem) (directory : Option String) (options : Value) :
    (∃ file, fileEntries read fs directory = .ok file ∧ Valid file ∧ Valid (optionEntries options)) ∨
    ∃ e, Fault read fs directory options e := by
  cases hf : fileEntries read fs directory with
  | error e => exact .inr ⟨e, .file hf⟩
  | ok file =>
      rcases valid_or_rejects file with hv | ⟨e, he⟩
      · rcases valid_or_rejects (optionEntries options) with ho | ⟨e, he⟩
        · exact .inl ⟨file, rfl, hv, ho⟩
        · exact .inr ⟨_, .optionsFilter hf hv he⟩
      · exact .inr ⟨_, .fileFilter hf he⟩

/-- Whether what is wrong first is not only reported: a failure of the reader of none of the families that are, or a
filter that cannot be looked up. -/
def Unreported (read : Reader) (fs : FileSystem) (directory : Option String) (options : Value) : Prop :=
  (∃ e, fileEntries read fs directory = .error (.document e) ∧ e.family = .other) ∨
  ∃ file, fileEntries read fs directory = .ok file ∧
    (HasUnhashable file ∨ Valid file ∧ HasUnhashable (optionEntries options))

theorem ne_filter_of_fileEntries {e : SettingsError} (h : fileEntries read fs directory = .error e)
    (reason : FilterNameError) : e ≠ .filter reason := by
  rintro rfl
  cases directory with
  | none => cases h
  | some directory =>
      rw [fileEntries] at h
      split at h
      · cases h
      · cases h
      · rename_i bytes _
        cases hr : read bytes <;> rw [hr] at h <;> cases h

theorem unreported_iff_of_error {e : SettingsError} (h : fileEntries read fs directory = .error e) :
    Unreported read fs directory options ↔ ∃ reason, e = .document reason ∧ reason.family = .other := by
  simp [Unreported, h]

theorem unreported_iff_of_ok {file : List (Value × Value)} (h : fileEntries read fs directory = .ok file) :
    Unreported read fs directory options ↔ HasUnhashable file ∨ Valid file ∧ HasUnhashable (optionEntries options) := by
  simp [Unreported, h]

theorem Valid.not_hasUnhashable (h : Valid entries) : ¬ HasUnhashable entries := by
  rintro ⟨v, hv, hc⟩
  obtain ⟨f, rfl⟩ := h v hv
  cases hc

theorem Fault.isReported_iff {e : SettingsError} (h : Fault read fs directory options e) :
    e.isReported ↔ ¬ Unreported read fs directory options := by
  cases h with
  | file he =>
      rw [unreported_iff_of_error he]
      cases e with
      | filter reason => exact absurd rfl (ne_filter_of_fileEntries he reason)
      | file => simp [SettingsError.isReported]
      | document => simp [SettingsError.isReported, ReadError.isReported]
  | fileFilter hf he =>
      rw [unreported_iff_of_ok hf, ← he.isLookupFailure_iff]
      simp [SettingsError.isReported, he.not_valid]
  | optionsFilter hf hv he =>
      rw [unreported_iff_of_ok hf, ← he.isLookupFailure_iff]
      simp [SettingsError.isReported, hv, hv.not_hasUnhashable]

theorem Unreported.exists_fault (h : Unreported read fs directory options) :
    ∃ e, Fault read fs directory options e := by
  rcases valid_or_fault read fs directory options with ⟨file, hf, hv, ho⟩ | he
  · rcases (unreported_iff_of_ok hf).mp h with hc | ⟨_, hc⟩
    · exact absurd hc hv.not_hasUnhashable
    · exact absurd hc ho.not_hasUnhashable
  · exact he

end Settings

end Typeahead
