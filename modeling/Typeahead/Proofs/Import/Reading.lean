import Typeahead.Proofs.Import.Front
import Typeahead.Proofs.Parser.Layout

/-!
The blocks of the preamble while a text is read. They stay orderly from the first token to the end of the text:
no import keyword is ever dropped before the preamble is complete, and one that is missing is put in before a name.
-/

namespace Typeahead

open Automaton Recovery Typeahead.Tree

variable {ss : List Symbol} {read : List Token} {issues : List Issue} {place : Position} {token : Token}
  {t u m : Terminal} {qs qs₁ qs₂ : List State}

theorem Behind.concat (h : Behind read place) (ht : token.After place) (hm : token.isMissing = false) :
    Behind (read ++ [token]) token.stop := by
  refine List.forall_mem_append.mpr ⟨fun v hv => ?_, List.forall_mem_singleton.mpr (ht.extent hm)⟩
  exact Nat.lt_of_lt_of_le (h v hv) (Nat.le_trans ht.offset ht.offsets)

/-- Only a name can come after an import keyword. -/
theorem eq_name_of_feed? (h : Spells qs ss) (hk : feed? qs .kwImport = some qs₁) (hu : feed? qs₁ u = some qs₂) :
    u = .name := by
  obtain ⟨_, h₁⟩ := h.feed? hk
  obtain ⟨q, hq, rfl⟩ := feed?_eq_some.mp hk
  have hsymbol := symbol_of_next? (s := .t .kwImport) hq
  obtain ⟨hcomplete, hshifts⟩ := after_import _ (row_mem (lt_of_symbol hsymbol)) hsymbol
  have hnone : reduce? (q :: settled (.token .kwImport) qs) (.token u) = none := by
    refine Option.eq_none_iff_forall_ne_some.mpr ?_
    rintro ⟨r, rest⟩ hr
    have hr := complete_of_reduce? hr
    rw [top_cons, hcomplete] at hr
    cases hr
  obtain ⟨q', hq', _⟩ := feed?_eq_some.mp hu
  rw [h₁.settled_of_none hnone] at hq'
  exact hshifts _ (mem_shifts hq')

namespace Parser

variable {p : Parser}

/-- A parser whose blocks are orderly. As long as the preamble is not complete, the latest block is that of the
last import keyword. -/
structure Reading (read : List Token) (issues : List Issue) (p : Parser) : Prop where
  stands : ∃ ss, p.Outlined ss ∧
    (ss ∈ openings → Latest read (blocks (front p.values)) ∧ Begun (blocks (front p.values)))
  orderly : Orderly read issues (blocks (front p.values))

/-! ## Searches and missing tokens -/

namespace Outlined

theorem search (h : p.Outlined ss) (ho : Orderly read issues (blocks (front p.values))) (place : Position)
    (wanted : Option Terminal) :
    (p.search place wanted).Outlined ss ∧ Orderly read issues (blocks (front (p.search place wanted).values)) ∧
      (ss ∈ openings → Resumes (blocks (front p.values)) (blocks (front (p.search place wanted).values))) := by
  rcases opening_or_closed h.1 with hopen | hclosed
  · obtain ⟨ho', hr⟩ := h.search_of_opening hopen ho place wanted
    exact ⟨h.outlined_search place wanted, ho', fun _ => hr⟩
  · have hfront := h.search_of_closed hclosed place wanted
    refine ⟨h.outlined_search place wanted, hfront ▸ ho, fun hmem => ?_⟩
    exact absurd hclosed (not_closed (List.mem_append_left _ hmem))

theorem feed_missing (h : p.Outlined ss) (ho : Orderly read issues (blocks (front p.values)))
    (hf : feed? p.states m = some qs) (he : Behind read place) :
    ∃ ss', (p.feed m (Token.missing m place)).2.Outlined ss' ∧
      Orderly read issues (blocks (front (p.feed m (Token.missing m place)).2.values)) ∧
      (ss' ∈ openings → ss ∈ openings ∧
        front (p.feed m (Token.missing m place)).2.values = front p.values ++ [Token.missing m place]) := by
  have hk : (Token.missing m place).kind = .terminal m := rfl
  obtain ⟨ss', h', ⟨hmem, _, hfront⟩ | ⟨hmem, hfront⟩⟩ := h.feed hf hk
  · refine ⟨ss', h', ?_, fun _ => ⟨hmem, hfront⟩⟩
    rw [hfront, blocks_concat]
    exact ho.note_missing he m
  · exact ⟨ss', h', hfront ▸ ho, fun h => absurd h hmem⟩

/-- A token of the text that is taken. -/
theorem feed_written (h : p.Outlined ss) (ho : Orderly read issues (blocks (front p.values)))
    (hl : ss ∈ openings → Latest read (blocks (front p.values)) ∧ Awaits issues (blocks (front p.values)) token ∧
      (Begun (blocks (front p.values)) ∨ token.isName))
    (hf : feed? p.states u = some qs) (hk : token.kind = .terminal u) (he : Behind read place) (ht : token.After place)
    (hm : token.isMissing = false) : (p.feed u token).2.Reading (read ++ [token]) issues := by
  obtain ⟨ss', h', ⟨hmem, _, hfront⟩ | ⟨hmem, hfront⟩⟩ := h.feed hf hk
  · obtain ⟨hlatest, hawaits, hbegun⟩ := hl hmem
    have hnote : blocks (front (p.feed u token).2.values) = note (blocks (front p.values)) token := by
      rw [hfront, blocks_concat]
    refine ⟨⟨ss', h', fun _ => ?_⟩, ?_⟩
    · rw [hnote]
      exact ⟨hlatest.note_written he ht.offset, .note_written hbegun hm⟩
    · rw [hnote]
      exact ho.note_written hlatest hawaits he ht.offset
  · exact ⟨⟨ss', h', fun h => absurd h hmem⟩, hfront ▸ ho.later he ht.offset⟩

end Outlined

/-! ## One token -/

namespace Reading

theorem initial : initial.Reading [] issues :=
  ⟨⟨[], .initial, fun _ => ⟨List.forall_mem_nil _, nofun⟩⟩, .nil⟩

/-- The search before a refused token. -/
theorem refused (h : p.Reading read issues) (place : Position) (t : Terminal) :
    (p.refused place t).Reading read issues := by
  obtain ⟨ss, hout, hl⟩ := h.stands
  obtain ⟨ss₁, hout₁, hfront, hopen⟩ := hout.settle (.token t)
  have ho := h.orderly
  rw [← hfront] at ho hl
  obtain ⟨hout', ho', hr⟩ := hout₁.search ho place (some t)
  refine ⟨⟨ss₁, hout', fun hmem => ?_⟩, ho'⟩
  obtain ⟨hlatest, hbegun⟩ := hl (hopen hmem)
  exact ⟨(hr hmem).latest hlatest, (hr hmem).begun hbegun⟩

/-- A token that is dropped. Before the preamble is complete, it is no import keyword. -/
theorem later (h : p.Reading read issues) (he : Behind read place) (ht : token.After place)
    (hk : ∀ ss ∈ openings, Spells p.states ss → token.kind ≠ .terminal .kwImport) :
    p.Reading (read ++ [token]) issues := by
  obtain ⟨ss, hout, hl⟩ := h.stands
  refine ⟨⟨ss, hout, fun hmem => ?_⟩, h.orderly.later he ht.offset⟩
  obtain ⟨hlatest, hbegun⟩ := hl hmem
  exact ⟨hlatest.later (hk ss hmem hout.1), hbegun⟩

/-- A token before which another was inserted. -/
theorem inserted (h : p.Reading read issues) (hf : feed? p.states m = some qs₁)
    (ht : feed? (p.feed m (Token.missing m place)).2.states u = some qs₂) (hk : token.kind = .terminal u)
    (hi : .missingBefore m token ∈ issues) (he : Behind read place) (hafter : token.After place)
    (hm : token.isMissing = false) :
    ((p.feed m (Token.missing m place)).2.feed u token).2.Reading (read ++ [token]) issues := by
  obtain ⟨ss, hout, hl⟩ := h.stands
  obtain ⟨ss', hout', ho', hfront⟩ := hout.feed_missing h.orderly hf he
  refine hout'.feed_written ho' (fun hmem => ?_) ht hk he hafter hm
  obtain ⟨hmem, hfront⟩ := hfront hmem
  obtain ⟨hlatest, hbegun⟩ := hl hmem
  rw [hfront, blocks_concat]
  refine ⟨hlatest.note_missing he m, ?_⟩
  by_cases hkeyword : m = .kwImport
  · subst hkeyword
    rw [feed_states, hf, Option.getD_some] at ht
    obtain rfl := eq_name_of_feed? hout.1 hf ht
    exact ⟨Begun.awaits_missing hi hafter.offset, .inr (by simp [Token.isName, hk])⟩
  · have hbegun' := hbegun.note_missing hkeyword place
    exact ⟨hbegun'.awaits token, .inl hbegun'⟩

theorem advance (h : p.Reading read issues) (he : Behind read place) (ht : token.After place)
    (hm : token.isMissing = false) (hi : ∀ i ∈ issue? token (p.advance place token).1, i ∈ issues) :
    (p.advance place token).2.Reading (read ++ [token]) issues := by
  rcases p.advance_cases place token with ⟨hk, ha⟩ | ⟨u, hk, ⟨qs, hf, ha⟩ | ⟨hf, hnone, ha⟩ | ⟨m, hf, hsome, ha⟩⟩
  · rw [ha]
    exact h.later he ht fun _ _ _ hkeyword => by rw [hk] at hkeyword; cases hkeyword
  · rw [ha]
    obtain ⟨ss, hout, hl⟩ := h.stands
    refine hout.feed_written h.orderly (fun hmem => ?_) hf hk he ht hm
    obtain ⟨hlatest, hbegun⟩ := hl hmem
    exact ⟨hlatest, hbegun.awaits token, .inl hbegun⟩
  · rw [ha]
    refine (h.refused place u).later he ht fun ss hmem hs hkeyword => ?_
    -- An import keyword would have been taken, if need be after a missing name.
    rw [hk] at hkeyword
    cases hkeyword
    obtain ⟨ss₀, hout, _⟩ := h.stands
    have hidle := hout.1.settled_settled (.token .kwImport)
    rw [refused_states] at hs
    rcases takes_import ss hmem _ hs.statesOf with haccepts | hinsert
    · rw [accepts, feed?, hidle, ← feed?, hf] at haccepts
      cases haccepts
    · rw [hidle, hnone] at hinsert
      cases hinsert
  · rw [ha] at hi ⊢
    obtain ⟨qs₁, qs₂, hm₁, hu⟩ := feed?_refused place hsome
    exact (h.refused place u).inserted hm₁ hu hk (hi _ rfl) he ht hm

/-! ## Whole texts -/

theorem run (h : p.Reading read issues) (he : Behind read place) {us : List Token} (hus : ∀ u ∈ us, u.After place)
    (hpw : us.Pairwise fun a b => b.After a.stop) (hm : ∀ u ∈ us, u.isMissing = false)
    (hi : ∀ i ∈ (p.run place us).2.2, i ∈ issues) :
    (p.run place us).1.Reading (read ++ us) issues ∧ Behind (read ++ us) (p.run place us).2.1 := by
  induction us generalizing p place read with
  | nil =>
      rw [List.append_nil]
      exact ⟨h, he⟩
  | cons u us ih =>
      rw [List.forall_mem_cons] at hus hm
      rw [List.pairwise_cons] at hpw
      simp only [Parser.run, List.forall_mem_append, Option.mem_toList] at hi
      have hrun := ih (h.advance he hus.1 hm.1 hi.1) (he.concat hus.1 hm.1) hpw.1 hpw.2 hm.2 hi.2
      rwa [List.append_assoc, List.singleton_append] at hrun

end Reading

/-! ## The end of a text -/

/-- To finish a text keeps the blocks orderly. -/
theorem Outlined.finish (h : p.Outlined ss) (ho : Orderly read issues (blocks (front p.values)))
    (he : Behind read place) (n : Nat) :
    ∃ tokens, Fronted tokens (finish place n p).tree ∧ Orderly read issues (blocks tokens) := by
  induction n generalizing p ss with
  | zero => exact ⟨_, h.abandon, ho⟩
  | succ n ih =>
      obtain ⟨ss₁, h₁, hfront, _⟩ := h.settle .finish
      rw [← hfront] at ho
      by_cases ha : top (settled .finish p.states) = accepting
      · rw [finish_of_accepting n ha]
        exact ⟨_, h₁.accept ha, ho⟩
      · obtain ⟨h₂, ho₂, _⟩ := h₁.search ho place none
        cases hi : insertion? (settled .finish p.states) none with
        | none =>
            rw [finish_of_none n ha hi]
            exact ⟨_, h₂.abandon, ho₂⟩
        | some m =>
            obtain ⟨qs, hm⟩ := feed?_unfinished place hi
            obtain ⟨ss₃, h₃, ho₃, _⟩ := h₂.feed_missing ho₂ hm he
            rw [finish_of_some n ha hi]
            exact ih h₃ ho₃

end Parser

/-- The preamble of a text has orderly blocks. -/
theorem orderly_parse (text : String) : ∃ tokens, Fronted tokens (parse text).tree ∧
    Orderly (significant (tokenize text)) (parse text).issues (blocks tokens) := by
  have hm : ∀ u ∈ significant (tokenize text), u.isMissing = false := fun u hu =>
    isMissing_of_mem_tokenize (List.mem_of_mem_filter hu)
  have hinitial : Parser.initial.Reading [] (parse text).issues := .initial
  obtain ⟨hrun, hbehind⟩ := hinitial.run (List.forall_mem_nil _) (after_start_of_mem_significant text)
    (pairwise_after_significant text) hm fun i hi => List.mem_append_left _ hi
  obtain ⟨ss, hout, _⟩ := hrun.stands
  exact hout.finish hrun.orderly hbehind Parser.completionLimit

end Typeahead
