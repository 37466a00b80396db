import Mathlib.Data.List.Induction
import Typeahead.Proofs.Settings.Sources
import Typeahead.Server.Session
import Typeahead.Settings.Yaml.Document

/-!
The settings in a session. Only its start and a configuration change them, and each of the two changes them as a whole:
a source that cannot be used leaves nothing behind.
-/

namespace Typeahead

/-- What a configuration has for this server. -/
def Settings.section? (configuration : Value) : Option (List (Value × Value)) :=
  (configuration.entries?.bind (Value.find? sectionName)).bind Value.entries?

namespace Session

/-! ## The start -/

/-- The workspace has a file with the given entries, or none, and they and the options can be used. -/
structure Reads (s : Session) (p : StartParams) (file : List (Value × Value)) : Prop where
  workspace : ∃ directory, s.workspace? p = .ok directory ∧
    Settings.fileEntries s.reader s.disk.fileSystem directory = .ok file
  valid : Settings.Valid file
  options : Settings.Valid (Settings.optionEntries p.options)

/-- The first thing that is wrong with the sources at the start, as it is reported. -/
inductive Fault (s : Session) (p : StartParams) : String → Prop
  | root {e} (h : s.workspace? p = .error e) : Fault s p e.message
  | settings {directory e} (h : s.workspace? p = .ok directory)
      (he : Settings.Fault s.reader s.disk.fileSystem directory p.options e) : Fault s p e.message

/-- Whether what is wrong fails the start. -/
def Unreported (s : Session) (p : StartParams) : Prop :=
  ∃ directory, s.workspace? p = .ok directory ∧ Settings.Unreported s.reader s.disk.fileSystem directory p.options

/-- The note of a start. -/
def startNote (settings : Settings) : Message :=
  .log .info ("Using " ++ settings.filter.label ++ " token filter")

section

variable {s : Session} {p : StartParams} {v : Value} {entries : List (Value × Value)}

theorem reads_or_fault (s : Session) (p : StartParams) : (∃ file, s.Reads p file) ∨ ∃ text, s.Fault p text := by
  cases hd : s.workspace? p with
  | error e => exact .inr ⟨_, .root hd⟩
  | ok directory =>
      rcases Settings.valid_or_fault s.reader s.disk.fileSystem directory p.options with ⟨file, hf, hv, ho⟩ | ⟨e, he⟩
      · exact .inl ⟨file, ⟨directory, hd, hf⟩, hv, ho⟩
      · exact .inr ⟨_, .settings hd he⟩

theorem Fault.not_reads {text : String} (h : s.Fault p text) (file : List (Value × Value)) : ¬ s.Reads p file := by
  intro hr
  obtain ⟨directory, hd, hf⟩ := hr.workspace
  cases h with
  | root he =>
      rw [hd] at he
      cases he
  | settings hd' he =>
      obtain rfl := Except.ok.inj (hd.symm.trans hd')
      obtain ⟨settings, hload, _⟩ := Settings.load_of_valid hf hr.valid hr.options
      rw [Settings.load_of_fault he] at hload
      cases hload

theorem startSettings_of_reads {file : List (Value × Value)} (h : s.Reads p file) : ∃ settings : Settings,
    s.startSettings p = { result := .ok settings } ∧
    Settings.Stacked file (Settings.optionEntries p.options) settings := by
  obtain ⟨directory, hd, hf⟩ := h.workspace
  obtain ⟨settings, hload, hget⟩ := Settings.load_of_valid hf h.valid h.options
  exact ⟨settings, by simp only [startSettings, hd, hload], hget⟩

theorem startSettings_of_reported {text : String} (h : s.Fault p text) (hr : ¬ s.Unreported p) :
    s.startSettings p = { messages := [startReport text], result := .ok {} } := by
  cases h with
  | root hd => simp only [startSettings, hd]
  | settings hd he =>
      have hreported := he.isReported_iff.mpr fun hu => hr ⟨_, hd, hu⟩
      simp only [startSettings, hd, Settings.load_of_fault he, hreported, if_true]

theorem startSettings_of_unreported (h : s.Unreported p) :
    ∃ e : SettingsError, s.startSettings p = { result := .error (.settings e) } := by
  obtain ⟨directory, hd, hu⟩ := h
  obtain ⟨e, he⟩ := hu.exists_fault
  have hreported : ¬ e.isReported := fun hr => he.isReported_iff.mp hr hu
  refine ⟨e, ?_⟩
  simp only [startSettings, hd, Settings.load_of_fault he, hreported, Bool.false_eq_true, if_false]

/-- The flags are set whether or not the settings can be used. -/
theorem start_of_ok {messages : List Message} {settings : Settings}
    (h : s.startSettings p = { messages, result := .ok settings }) :
    s.start p = ({ s with flags := some (ClientFlags.ofSupport p.support), settings },
      { messages := messages ++ [startNote settings], result := .ok .nothing }) := by
  have hflags : startSettings { s with flags := some (ClientFlags.ofSupport p.support) } p = _ := h
  simp only [start, hflags, startNote]

@[inherit_doc start_of_ok]
theorem start_of_error {messages : List Message} {e : Failure}
    (h : s.startSettings p = { messages, result := .error e }) :
    s.start p = ({ s with flags := some (ClientFlags.ofSupport p.support) }, { messages, result := .error e }) := by
  have hflags : startSettings { s with flags := some (ClientFlags.ofSupport p.support) } p = _ := h
  simp only [start, hflags]

/-! ## Configurations -/

theorem configure_of_none (h : Settings.section? v = none) :
    s.configure v = (s, { result := .ok .nothing }) := by
  rw [configure]
  split
  · rename_i hs
    rw [Settings.section?, hs] at h
    cases h
  · rfl

theorem find?_of_section? (h : Settings.section? v = some entries) :
    v.entries?.bind (Value.find? Settings.sectionName) = some (.map entries) := by
  obtain ⟨w, hw, he⟩ := Option.bind_eq_some_iff.mp h
  rw [hw]
  cases w <;> cases he
  rfl

theorem configure_of_valid (h : Settings.section? v = some entries) (hv : Settings.Valid entries) :
    ∃ settings : Settings,
      s.configure v = ({ s with settings },
        { messages := [.log .info "myktls settings updated"], result := .ok .nothing }) ∧
      s.settings.Merged entries settings := by
  obtain ⟨settings, hmerge, hget⟩ := Settings.merge_of_valid s.settings hv
  exact ⟨settings, by simp only [configure, find?_of_section? h, hmerge], hget⟩

theorem configure_of_rejects {e : FilterNameError} (h : Settings.section? v = some entries)
    (he : Settings.Rejects entries e) : s.configure v = (s,
      if e.isLookupFailure then { result := .error (.settings (.filter e)) }
      else
        { messages := [.log .error ("Ignoring invalid myktls settings: " ++ e.message)]
          result := .ok .nothing }) := by
  simp only [configure, find?_of_section? h, Settings.merge_of_rejects he]
  split <;> rfl

end

/-! ## Steps -/

/-- What a request does to the settings and flags of a session, given its result. -/
inductive Settles (s : Session) : Request → Except Failure Reply → Settings → Option ClientFlags → Prop
  | loaded {p file settings} (h : s.Reads p file)
      (hget : Settings.Stacked file (Settings.optionEntries p.options) settings) :
      Settles s (.start p) (.ok .nothing) settings (some (ClientFlags.ofSupport p.support))
  | defaults {p} (h : ∀ file, ¬ s.Reads p file) :
      Settles s (.start p) (.ok .nothing) {} (some (ClientFlags.ofSupport p.support))
  | failed {p e} (h : ∀ file, ¬ s.Reads p file) :
      Settles s (.start p) (.error e) s.settings (some (ClientFlags.ofSupport p.support))
  | ignored {v} (h : Settings.section? v = none) : Settles s (.configure v) (.ok .nothing) s.settings s.flags
  | accepted {v entries settings} (h : Settings.section? v = some entries) (hv : Settings.Valid entries)
      (hget : s.settings.Merged entries settings) :
      Settles s (.configure v) (.ok .nothing) settings s.flags
  | rejected {v entries e result} (h : Settings.section? v = some entries) (he : Settings.Rejects entries e) :
      Settles s (.configure v) result s.settings s.flags
  | other {r result} (hp : ∀ p, r ≠ .start p) (hv : ∀ v, r ≠ .configure v) : Settles s r result s.settings s.flags

theorem settles_start (s : Session) (p : StartParams) :
    s.Settles (.start p) (s.start p).2.result (s.start p).1.settings (s.start p).1.flags := by
  rcases s.reads_or_fault p with ⟨file, h⟩ | ⟨text, h⟩
  · obtain ⟨settings, hs, hget⟩ := startSettings_of_reads h
    rw [start_of_ok hs]
    exact .loaded h hget
  · by_cases hu : s.Unreported p
    · obtain ⟨e, hs⟩ := startSettings_of_unreported hu
      rw [start_of_error hs]
      exact .failed h.not_reads
    · rw [start_of_ok (startSettings_of_reported h hu)]
      exact .defaults h.not_reads

theorem settles_configure (s : Session) (v : Value) :
    s.Settles (.configure v) (s.configure v).2.result (s.configure v).1.settings (s.configure v).1.flags := by
  cases h : Settings.section? v with
  | none =>
      rw [configure_of_none h]
      exact .ignored h
  | some entries =>
      rcases Settings.valid_or_rejects entries with hv | ⟨e, he⟩
      · obtain ⟨settings, hs, hget⟩ := configure_of_valid (s := s) h hv
        rw [hs]
        exact .accepted h hv hget
      · rw [configure_of_rejects h he]
        exact .rejected h he

/-- No other request touches the settings or the flags. -/
theorem step_of_other {s : Session} {r : Request} (hp : ∀ p, r ≠ .start p) (hv : ∀ v, r ≠ .configure v) :
    (s.step r).1.settings = s.settings ∧ (s.step r).1.flags = s.flags := by
  cases r with
  | start p => exact absurd rfl (hp p)
  | configure v => exact absurd rfl (hv v)
  | openDocument => rw [step]; split <;> exact ⟨rfl, rfl⟩
  | complete => rw [step]; split <;> (try split) <;> exact ⟨rfl, rfl⟩
  | resolve => rw [step]; split <;> exact ⟨rfl, rfl⟩
  | _ => exact ⟨rfl, rfl⟩

theorem settles_of_other {s : Session} {r : Request} (hp : ∀ p, r ≠ .start p) (hv : ∀ v, r ≠ .configure v) :
    s.Settles r (s.step r).2.result (s.step r).1.settings (s.step r).1.flags := by
  obtain ⟨hsettings, hflags⟩ := step_of_other (s := s) hp hv
  rw [hsettings, hflags]
  exact .other hp hv

theorem settles_step (s : Session) (r : Request) :
    s.Settles r (s.step r).2.result (s.step r).1.settings (s.step r).1.flags := by
  cases r with
  | start p => exact s.settles_start p
  | configure v => exact s.settles_configure v
  | _ => exact settles_of_other (fun _ h => nomatch h) (fun _ h => nomatch h)

/-! ## Runs -/

/-- The session after some requests. -/
def run (s : Session) (requests : List Request) : Session :=
  requests.foldl (fun s r => (s.step r).1) s

theorem run_concat (s : Session) (requests : List Request) (r : Request) :
    s.run (requests ++ [r]) = ((s.run requests).step r).1 := by
  rw [run, List.foldl_append]
  rfl

/-- The sources that a request gives, if they are all valid. -/
inductive Offers (s : Session) : Request → List (Value × Value) → Prop
  | file {p file} (h : s.Reads p file) : Offers s (.start p) file
  | options {p file} (h : s.Reads p file) : Offers s (.start p) (Settings.optionEntries p.options)
  | configuration {v entries} (h : Settings.section? v = some entries) (hv : Settings.Valid entries) :
      Offers s (.configure v) entries

/-- A setting is a default, or comes from a source that a request has given with nothing wrong in it. -/
def Sourced (s : Session) (requests : List Request) : Prop :=
  ∀ field : Settings.Field, (s.run requests).settings.get field = Settings.get {} field ∨
    ∃ before r after entries, requests = before ++ r :: after ∧ (s.run before).Offers r entries ∧
      Value.find? field.key entries = some ((s.run requests).settings.get field)

/-- A step leaves a setting as it was, makes it the default or takes it from a source that is offered. -/
theorem Settles.get_cases {s : Session} {r : Request} {result : Except Failure Reply} {settings : Settings}
    {flags : Option ClientFlags} (h : s.Settles r result settings flags) (field : Settings.Field) :
    settings.get field = s.settings.get field ∨ settings.get field = Settings.get {} field ∨
      ∃ entries, s.Offers r entries ∧ Value.find? field.key entries = some (settings.get field) := by
  cases h with
  | @loaded p file _ h hget =>
      rw [hget]
      cases ho : Value.find? field.key (Settings.optionEntries p.options) with
      | some v => exact .inr (.inr ⟨_, .options h, ho⟩)
      | none =>
          cases hf : Value.find? field.key file with
          | some v => exact .inr (.inr ⟨_, .file h, hf⟩)
          | none => exact .inr (.inl rfl)
  | @accepted v entries _ h hv hget =>
      rw [hget]
      cases he : Value.find? field.key entries with
      | some v => exact .inr (.inr ⟨_, .configuration h hv, he⟩)
      | none => exact .inl rfl
  | defaults => exact .inr (.inl rfl)
  | _ => exact .inl rfl

theorem Sourced.step {s : Session} {requests : List Request} (h : s.Sourced requests) (r : Request) :
    s.Sourced (requests ++ [r]) := by
  intro field
  rw [run_concat]
  rcases ((s.run requests).settles_step r).get_cases field with hkept | hdefault | ⟨entries, ho, hv⟩
  · rw [hkept]
    rcases h field with hdefault | ⟨before, r', after, entries, rfl, ho, hv⟩
    · exact .inl hdefault
    · exact .inr ⟨before, r', after ++ [r], entries, by simp, ho, hv⟩
  · exact .inl hdefault
  · exact .inr ⟨requests, r, [], entries, rfl, ho, hv⟩

theorem sourced_run (disk : Disk) (reader : Settings.Reader) (requests : List Request) :
    Sourced { disk, reader } requests := by
  induction requests using List.reverseRecOn with
  | nil => exact fun _ => .inl rfl
  | append_singleton requests r ih => exact ih.step r

end Session

theorem Filter.label_mem (f : Filter) : f.label ∈ ["fuzzy", "prefix", "none"] := by
  cases f <;> decide

/-- In every session, whatever it reads its settings file with, the filter is a known one, each setting is a default or
was given by a source with nothing wrong in it, and a request settles the settings and flags as its kind allows. -/
theorem settings_over_session (disk : Disk) (reader : Settings.Reader) (requests : List Request) (r : Request) :
    let s := Session.run { disk, reader } requests
    s.settings.filter.label ∈ ["fuzzy", "prefix", "none"] ∧
    Session.Sourced { disk, reader } requests ∧
    s.Settles r (s.step r).2.result (s.step r).1.settings (s.step r).1.flags :=
  ⟨Filter.label_mem _, Session.sourced_run disk reader requests, Session.settles_step _ r⟩

/-- A start that fails has set the flags already. -/
theorem flags_set_by_failed_start :
    let s : Session := { disk := Disk.empty "/w", reader := Yaml.reader }
    let done := s.step (.start { options := .map [(.str "token_filter", .list [])] })
    done.2.result = .error (.settings (.filter (.unhashable "list"))) ∧ s.flags = none ∧ done.1.flags = some {} :=
  ⟨rfl, rfl, rfl⟩

/-! ## Reports -/

namespace Session

theorem start_fails_iff (s : Session) (p : StartParams) :
    (∃ e, (s.start p).2.result = .error e) ↔ s.Unreported p := by
  constructor
  · rintro ⟨e, he⟩
    by_contra hu
    rcases s.reads_or_fault p with ⟨file, h⟩ | ⟨text, h⟩
    · obtain ⟨settings, hs, _⟩ := startSettings_of_reads h
      rw [start_of_ok hs] at he
      cases he
    · rw [start_of_ok (startSettings_of_reported h hu)] at he
      cases he
  · intro hu
    obtain ⟨e, hs⟩ := startSettings_of_unreported hu
    rw [start_of_error hs]
    exact ⟨_, rfl⟩

theorem configure_fails_iff (s : Session) (v : Value) : (∃ e, (s.configure v).2.result = .error e) ↔
    ∃ entries, Settings.section? v = some entries ∧ Settings.HasUnhashable entries := by
  cases h : Settings.section? v with
  | none => simp [configure_of_none h]
  | some entries =>
      rcases Settings.valid_or_rejects entries with hv | ⟨e, he⟩
      · obtain ⟨settings, hs, _⟩ := configure_of_valid (s := s) h hv
        simp [hs, hv.not_hasUnhashable]
      · rw [configure_of_rejects h he]
        simp only [Option.some.injEq, exists_eq_left', ← he.isLookupFailure_iff]
        cases e.isLookupFailure <;> simp

end Session

/-- A start or a configuration fails exactly if the first thing that is wrong with the settings is a filter that cannot
be looked up or, at a start, a failure to read the file that is of none of the families that are reported. Anything else
that is wrong is reported once, and the settings are then the defaults after a start, and as before after a
configuration. What is right is not reported. -/
theorem wrong_settings_reported (s : Session) (p : StartParams) (v : Value) :
    ((∃ e, (s.step (.start p)).2.result = .error e) ↔ s.Unreported p) ∧
    (∀ text, s.Fault p text → ¬ s.Unreported p → (s.step (.start p)).1.settings = {} ∧
      (s.step (.start p)).2.messages =
        [.log .error ("Invalid myktls settings, using defaults: " ++ text), .log .info "Using fuzzy token filter"]) ∧
    (∀ file, s.Reads p file → ∀ text, .log .error text ∉ (s.step (.start p)).2.messages) ∧
    ((∃ e, (s.step (.configure v)).2.result = .error e) ↔
      ∃ entries, Settings.section? v = some entries ∧ Settings.HasUnhashable entries) ∧
    (∀ entries e, Settings.section? v = some entries → Settings.Rejects entries e → ¬ Settings.HasUnhashable entries →
      (s.step (.configure v)).1 = s ∧
      (s.step (.configure v)).2.messages = [.log .error ("Ignoring invalid myktls settings: " ++ e.message)]) ∧
    ((∀ entries, Settings.section? v = some entries → Settings.Valid entries) →
      ∀ text, .log .error text ∉ (s.step (.configure v)).2.messages) := by
  refine ⟨s.start_fails_iff p, fun text h hu => ?_, fun file h text => ?_, s.configure_fails_iff v,
    fun entries e h he hc => ?_, fun h text => ?_⟩
  · rw [Session.step, Session.start_of_ok (Session.startSettings_of_reported h hu)]
    exact ⟨rfl, rfl⟩
  · obtain ⟨settings, hs, _⟩ := Session.startSettings_of_reads h
    rw [Session.step, Session.start_of_ok hs]
    simp [Session.startNote]
  · have hreported : ¬ e.isLookupFailure := fun hl => hc (he.isLookupFailure_iff.mp hl)
    rw [Session.step, Session.configure_of_rejects h he, if_neg hreported]
    exact ⟨rfl, rfl⟩
  · rw [Session.step]
    cases hs : Settings.section? v with
    | none => simp [Session.configure_of_none hs]
    | some entries =>
        obtain ⟨settings, hc, _⟩ := Session.configure_of_valid (s := s) hs (h entries hs)
        simp [hc]

/-- Settings with a filter that is none are reported, and nothing else that stands beside it is taken over. -/
theorem wrong_settings_reported_true :
    let s : Session := { disk := Disk.empty "/w", reader := Yaml.reader }
    let entries : List (Value × Value) := [(.str "token_filter", .bool true), (.str "trace", .bool true)]
    let v : Value := .map [(.str "myktls", .map entries)]
    let text := "Unknown token filter True (expected one of: fuzzy, none, prefix)"
    s.Fault { options := v } text ∧ ¬ s.Unreported { options := v } ∧
    (s.step (.start { options := v })).1.settings = {} ∧
    (s.step (.start { options := v })).2.messages =
      [.log .error ("Invalid myktls settings, using defaults: " ++ text), .log .info "Using fuzzy token filter"] ∧
    Settings.section? v = some entries ∧ ¬ Settings.HasUnhashable entries ∧ (s.step (.configure v)).1 = s ∧
    (s.step (.configure v)).2.messages = [.log .error ("Ignoring invalid myktls settings: " ++ text)] := by
  intro s entries v text
  have hrejects : Settings.Rejects entries (.unknown "True") := ⟨.bool true, rfl, rfl⟩
  have hhashable : ¬ Settings.HasUnhashable entries := by
    rintro ⟨w, hw, hc⟩
    cases hw
    cases hc
  have hnone : Settings.Valid [] := fun w hw => by cases hw
  have hroot : s.workspace? { options := v } = .ok none := rfl
  have hfile : Settings.fileEntries s.reader s.disk.fileSystem none = .ok [] := rfl
  have hwrong : Settings.Fault s.reader s.disk.fileSystem none v (.filter (.unknown "True")) :=
    .optionsFilter hfile hnone hrejects
  have hfault : s.Fault { options := v } text := .settings hroot hwrong
  have hunreported : ¬ s.Unreported { options := v } := by
    rw [← s.start_fails_iff]
    rintro ⟨e, he⟩
    cases he
  obtain ⟨_, hstart, _, _, hconfigure, _⟩ := wrong_settings_reported s { options := v } v
  obtain ⟨hsettings, hmessages⟩ := hstart text hfault hunreported
  obtain ⟨hsession, hreport⟩ := hconfigure entries _ rfl hrejects hhashable
  exact ⟨hfault, hunreported, hsettings, hmessages, rfl, hhashable, hsession, hreport⟩

/-- A list in place of a filter fails both requests. -/
theorem list_as_filter_fails :
    let s : Session := { disk := Disk.empty "/w", reader := Yaml.reader }
    let v : Value := .map [(.str "token_filter", .list [])]
    (s.step (.start { options := v })).2.result = .error (.settings (.filter (.unhashable "list"))) ∧
    (s.step (.configure (.map [(.str "myktls", v)]))).2.result = .error (.settings (.filter (.unhashable "list"))) :=
  ⟨rfl, rfl⟩

end Typeahead
