import Typeahead.Proofs.Text.Lines
import Typeahead.Server.Session
import Typeahead.Settings.Yaml.Document

/-!
Positions of an editor and carets. An editor counts columns in UTF-16 units and lines at line ends of every kind; a
caret counts characters, and lines at line feeds. The two agree up to the first line end of another kind.
-/

namespace Typeahead

namespace EditorPosition

variable {text : String} {line xs : List Char} {n : Nat}

/-- Before a line end of another kind than a line feed, a position as many units into a line as some characters have is
the caret behind these characters. -/
theorem resolve_of_plain (hr : '\r' ∉ text.toList) (hline : (text.toList.splitOn '\n')[n]? = some line)
    (hxs : xs <+: line)
    (hplain : ∀ c ∈ ((text.toList.splitOn '\n').take n).flatten ++ xs.dropLast, Text.isLineEnd c = false) :
    resolve text ⟨n, Text.unitLength xs⟩ = (⟨n, Text.unitLength xs⟩, ⟨n + 1, xs.length⟩) := by
  have h := Text.prefix_editorLines hr hline hxs hplain
  unfold resolve
  cases heditor : (Text.editorLines text.toList)[n]? with
  | none =>
      rw [heditor, Option.getD_none, List.prefix_nil] at h
      subst h
      rfl
  | some editorLine =>
      rw [heditor, Option.getD_some] at h
      obtain ⟨ys, rfl⟩ := h
      have hunified : Text.unifyNewlines (xs ++ ys) = xs ++ ys := by
        refine Text.unifyNewlines_of_notMem fun hmem => hr ?_
        rw [← Text.flatten_editorLines text.toList]
        exact List.mem_flatten_of_mem (List.mem_of_getElem? heditor) hmem
      have hclamp : clamp (xs ++ ys) (Text.unitLength xs) = Text.unitLength xs := by
        rw [clamp, Text.unitLength_append]
        exact if_neg (by omega)
      simp only [hunified, hclamp, Text.charsWithin_unitLength]
      rfl

end EditorPosition

/-- The text of an open document is the one that it was opened with last. -/
theorem Session.documentText_of_put {s : Session} {d : Documents} {uri text : String}
    (h : s.documents = d.put uri text) : s.documentText uri = .ok text := by
  simp [documentText, h, Documents.get?, Documents.put]

/-- Positions are translated exactly up to the first line end that is no line feed: a request as many units into a line
as some characters of it have is answered for the caret behind these characters. -/
theorem suggest_at_caret (s : Session) (uri text : String) (n : Nat) (line xs : List Char)
    (htext : s.documentText uri = .ok text) (hr : '\r' ∉ text.toList)
    (hline : (text.toList.splitOn '\n')[n]? = some line) (hxs : xs <+: line)
    (hplain : ∀ c ∈ ((text.toList.splitOn '\n').take n).flatten ++ xs.dropLast, Text.isLineEnd c = false) :
    s.suggest ⟨uri, ⟨n, Text.unitLength xs⟩⟩ =
      s.suggestAt uri text ⟨n, Text.unitLength xs⟩ ⟨n + 1, xs.length⟩ := by
  rw [Session.suggest]
  simp only [htext, EditorPosition.resolve_of_plain hr hline hxs hplain]

/-- A character of two units before the caret, and a form feed after it. -/
theorem suggest_at_caret_astral :
    let uri := "file:///w/m.mykt"
    let text := "val n\nval m = \"😀\" + n\x0c"
    let s : Session := { documents := Documents.put [] uri text, disk := Disk.empty "/w", reader := Yaml.reader }
    s.suggest ⟨uri, ⟨1, 16⟩⟩ = s.suggestAt uri text ⟨1, 16⟩ ⟨2, 15⟩ := by
  intro uri text s
  have hplain : (((text.toList.splitOn '\n').take 1).flatten ++ "val m = \"😀\" + n".toList.dropLast).all
      (!Text.isLineEnd ·) := by decide +kernel
  exact suggest_at_caret s uri text 1 "val m = \"😀\" + n\x0c".toList "val m = \"😀\" + n".toList
    (Session.documentText_of_put rfl) (by decide +kernel) (by decide +kernel) (by decide +kernel)
    fun c hc => by simpa using List.all_eq_true.mp hplain c hc

/-- A form feed ends a line for an editor only: from there on, a request is answered for a caret in another place. -/
theorem caret_astray_after_form_feed :
    let text := "val n\x0c\nval m = n"
    (text.toList.splitOn '\n')[1]? = some "val m = n".toList ∧
    EditorPosition.resolve text ⟨1, Text.unitLength "val m = n".toList⟩ = (⟨1, 0⟩, ⟨2, 0⟩) := by
  decide +kernel

end Typeahead
