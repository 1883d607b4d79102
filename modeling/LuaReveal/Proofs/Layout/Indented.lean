import LuaReveal.Proofs.Layout.CodeLines
import LuaReveal.Proofs.Layout.Placing
import LuaReveal.Settings

/-!
# LuaReveal.Proofs.Layout.Indented

The lines of a text that was indented anew: each is a line of code under some
indentation (`exists_of_mem_indentedLines`), so that none of them is empty and
all are told apart again (`lines_reindent`).  Only a line feed in the indentation
could get in the way.

An indentation of blanks, line feeds among them or not, only lays the lines of code
out (`laidOut_joinLines`).  So they are read again from the indented text, and to indent
it anew is to indent the source text (`reindent_reindent`).
-/

namespace LuaReveal

namespace Text

/-- A character of a repeated text is one of the text. -/
theorem mem_of_mem_repeated {c : Char} {n : Nat} {s : Text} (h : c ∈ repeated n s) : c ∈ s := by
  rw [repeated_eq_flatten_replicate, List.mem_flatten] at h
  obtain ⟨t, ht, hc⟩ := h
  rwa [List.eq_of_mem_replicate ht] at hc

end Text

namespace Layout

open Text (IsLine lines isBlank)

/-! ## Indented texts -/

section Indented

variable {unit source l : Text}

/-- The lines that the source text is indented to. -/
def indentedLines (unit source : Text) : List Text :=
  ((codeLines source).foldl place (.empty unit)).lines.toList

/-- They are the lines of code at their levels. -/
theorem indentedLines_eq (unit source : Text) :
    indentedLines unit source =
      (placedFrom 0 (codeLines source)).map (LineBuffer.indented unit) := by
  rw [indentedLines, foldl_place_eq]
  simp [LineBuffer.atLevel, LineBuffer.append, LineBuffer.empty]

theorem exists_of_mem_indentedLines (h : l ∈ indentedLines unit source) :
    ∃ line ∈ codeLines source, ∃ level, l = Text.repeated level unit ++ line := by
  rw [indentedLines_eq] at h
  obtain ⟨⟨level, line⟩, hp, rfl⟩ := List.mem_map.mp h
  refine ⟨line, ?_, level, rfl⟩
  rw [← map_snd_placedFrom 0 (codeLines source)]
  exact List.mem_map_of_mem hp

theorem ne_nil_of_mem_indentedLines (h : l ∈ indentedLines unit source) : l ≠ [] := by
  obtain ⟨line, hl, level, rfl⟩ := exists_of_mem_indentedLines h
  simp [(isCode_of_mem_codeLines hl).ne_nil]

theorem isLine_of_mem_indentedLines (hu : '\n' ∉ unit) (h : l ∈ indentedLines unit source) :
    IsLine l := by
  obtain ⟨line, hl, level, rfl⟩ := exists_of_mem_indentedLines h
  have hc := isCode_of_mem_codeLines hl
  exact hc.isLine.append hc.ne_nil fun hn => hu (Text.mem_of_mem_repeated hn)

/-- The lines of an indented text are those that it was joined from. -/
theorem lines_reindent (hu : '\n' ∉ unit) (source : Text) :
    lines (reindent unit source) = indentedLines unit source :=
  Text.lines_joinLines (fun _ => isLine_of_mem_indentedLines hu) fun hl =>
    ne_nil_of_mem_indentedLines (List.mem_of_getLast? hl) rfl

/-- A line feed after an indented text opens no line. -/
theorem lines_reindent_newline (hu : '\n' ∉ unit) (hn : reindent unit source ≠ []) :
    lines (reindent unit source ++ ['\n']) = lines (reindent unit source) := by
  have hl : indentedLines unit source ≠ [] := by
    rw [← lines_reindent hu]
    exact fun h => hn (Text.lines_eq_nil_iff.mp h)
  rw [lines_reindent hu]
  exact Text.lines_joinLines_newline (fun _ => isLine_of_mem_indentedLines hu) hl

end Indented

/-! ## Indentations of blanks -/

section Blank

variable {unit : Text} (hu : ∀ c ∈ unit, isBlank c = true)
include hu

/-- Lines that are indented by blanks are laid out, and nothing else. -/
theorem laidOut_joinLines (ps : List (Nat × Text)) :
    LaidOut (ps.map Prod.snd) (Text.joinLines (ps.map (LineBuffer.indented unit))) := by
  have hb (p : Nat × Text) : ∀ c ∈ Text.repeated p.1 unit, isBlank c = true :=
    fun c hc => hu c (Text.mem_of_mem_repeated hc)
  induction ps with
  | nil => exact .nil
  | cons p ps ih =>
      cases ps with
      | nil =>
          have hl : LaidOut [p.2] (p.2 ++ []) := .last (by simp) (by simp)
          rw [List.append_nil] at hl
          exact .blanks (hb p) hl
      | cons q ps =>
          have hl : LaidOut (p.2 :: (q :: ps).map Prod.snd)
              (p.2 ++ ([] ++ '\n' :: Text.joinLines ((q :: ps).map (LineBuffer.indented unit)))) :=
            .line (by simp) (by simp) ih
          have ht := LaidOut.blanks (hb p) hl
          rw [List.nil_append, ← List.append_assoc] at ht
          exact ht

/-- A text that is indented by blanks holds the lines of code of the source text. -/
theorem codeLines_reindent (source : Text) :
    codeLines (reindent unit source) = codeLines source := by
  have hl := laidOut_joinLines hu (placedFrom 0 (codeLines source))
  rw [map_snd_placedFrom, ← reindent_eq] at hl
  exact codeLines_of_laidOut hl fun _ => isCode_of_mem_codeLines

/-- **Indentation is forgotten**: a text that was indented by blanks is indented anew as
the source text is. -/
theorem reindent_reindent (source unit' : Text) :
    reindent unit' (reindent unit source) = reindent unit' source := by
  have hc := codeLines_reindent hu source
  unfold reindent at hc ⊢
  rw [hc]

end Blank

/-- Line feeds and carriage returns in the unit make lines of blanks, and a carriage
return within a line stays where it is. -/
theorem reindent_reindent_breaks :
    let unit := "\r\n\u3000".toList
    let source := "do\r\n\tf(\r)\r\r\n\u00A0end\r".toList
    (∀ c ∈ unit, isBlank c = true) ∧
      reindent unit source = "do\n\r\n\u3000f(\r)\nend".toList ∧
      reindent ['\t'] (reindent unit source) = reindent ['\t'] source ∧
      reindent ['\t'] source = "do\n\tf(\r)\nend".toList := by
  intro unit source
  have hu : ∀ c ∈ unit, isBlank c = true := List.all_eq_true.mp (by decide)
  exact ⟨hu, by decide +kernel, reindent_reindent hu source ['\t'], by decide +kernel⟩

end Layout

theorem Settings.newline_notMem_indentUnit {settings : Settings}
    (h : '\n' ∉ settings.indentChar) : '\n' ∉ settings.indentUnit :=
  fun hn => h (Text.mem_of_mem_repeated hn)

end LuaReveal
