import LuaReveal.Outcome
import LuaReveal.Proofs.Layout.Indented
import LuaReveal.Proofs.Signature.Names

/-!
# LuaReveal.Proofs.Commentary.Additive

Comments are only added.  Each line of the header and of the comments is one line
for itself and declares no function (`Remark`), so the lines of a commented text
are the header, an empty line, and the lines of the text with lines between them
that are comments (`CommentsAdded`).  The outcome of a run with comments differs
from that without in nothing else (`ofSource_comments`).
-/

namespace LuaReveal.Commentary

open Text (IsLine dropBlanks isBlank joinLines lines takeBlanks)
open Signature (names)

/-! ## Comment lines -/

/-- After its leading blanks the line starts with two hyphens. -/
def IsComment (line : Text) : Prop :=
  ∃ s, dropBlanks line = '-' :: '-' :: s

/-- The second list is the first with lines left out that are comments. -/
inductive CommentsAdded : List Text → List Text → Prop where
  | nil : CommentsAdded [] []
  | line {ls ms : List Text} (l : Text) (h : CommentsAdded ls ms) :
      CommentsAdded (l :: ls) (l :: ms)
  | comment {ls ms : List Text} {c : Text} (hc : IsComment c) (h : CommentsAdded ls ms) :
      CommentsAdded (c :: ls) ms

namespace CommentsAdded

theorem append_comments {cs ls ms : List Text} (hc : ∀ c ∈ cs, IsComment c)
    (h : CommentsAdded ls ms) : CommentsAdded (cs ++ ls) ms := by
  induction cs with
  | nil => exact h
  | cons c cs ih =>
      exact .comment (hc c List.mem_cons_self) (ih fun d hd => hc d (List.mem_cons_of_mem c hd))

end CommentsAdded

/-! ## Remarks -/

/-- A text that is a comment, fits on a line and declares no function. -/
structure Remark (c : Text) : Prop where
  hyphens : ∃ s, c = '-' :: '-' :: s
  isLine : IsLine c
  names_eq : names c = []

variable {b c : Text}

namespace Remark

theorem ne_nil (h : Remark c) : c ≠ [] := by
  obtain ⟨s, rfl⟩ := h.hyphens
  simp

theorem isComment (h : Remark c) (hb : ∀ d ∈ b, isBlank d = true) : IsComment (b ++ c) := by
  obtain ⟨s, rfl⟩ := h.hyphens
  refine ⟨s, ?_⟩
  rw [Text.dropBlanks_append hb, Text.dropBlanks_cons_of_not (by decide)]

theorem names_append (h : Remark c) (hb : ∀ d ∈ b, isBlank d = true) : names (b ++ c) = [] := by
  rw [Signature.names_append_of_blanks hb, h.names_eq]

end Remark

/-- A comment without the first character of the keyword declares nothing. -/
theorem remark_of_notMem (hh : ∃ s, c = '-' :: '-' :: s) (hl : IsLine c) (hf : 'f' ∉ c) :
    Remark c :=
  ⟨hh, hl, Signature.occurrencesAfter_of_notMem hf⟩

theorem remark_comment (m : Landmark) : Remark m.comment := by
  cases m with
  | stringTable name =>
      exact remark_of_notMem (c := "-- Decoded string table".toList) ⟨_, rfl⟩ (by decide)
        (by decide)
  | mainReturn =>
      exact remark_of_notMem (c := "-- Main return".toList) ⟨_, rfl⟩ (by decide) (by decide)

/-- A name without blanks can be told of in a comment. -/
theorem remark_functionComment {name : Text} (h : ∀ c ∈ name, isBlank c = false) :
    Remark (functionComment name) where
  hyphens := ⟨_, rfl⟩
  isLine := by
    have hn : '\n' ∉ name := fun hm => absurd (h _ hm) (by decide)
    have hr : ∀ r : Role, '\n' ∉ r.name := fun r => by cases r <;> decide
    refine IsLine.append (l := [')']) (by decide) (by simp) ?_
    simp [hn, hr]
  names_eq := by
    have hr : ∀ r : Role, 'f' ∉ r.name := fun r => by cases r <;> decide
    have ht : 'f' ∉ ' ' :: '(' :: ((Role.ofName name).name ++ [')']) := by simp [hr]
    have he : functionComment name =
        "-- Function: ".toList ++ (name ++ ' ' :: '(' :: ((Role.ofName name).name ++ [')'])) := by
      have hp : " (".toList = [' ', '('] := rfl
      have hq : ")".toList = [')'] := rfl
      unfold functionComment
      simp only [hp, hq, List.append_assoc, List.cons_append, List.nil_append]
    rw [he, names, Text.occurrences, Signature.occurrencesAfter_append_of_notMem (by decide),
      Signature.occurrencesAfter_append_parenthesis h, Signature.occurrencesAfter_of_notMem ht]

theorem remark_of_mem_comments {table? : Option Text} {line c : Text}
    (h : c ∈ comments table? line) : Remark c := by
  rcases List.mem_append.mp h with h | h
  · obtain ⟨m, _, rfl⟩ := Option.map_eq_some_iff.mp (Option.mem_toList.mp h)
    exact remark_comment m
  · obtain ⟨name, hn, rfl⟩ := List.mem_map.mp h
    exact remark_functionComment (Signature.isBlank_of_mem_names hn)

/-! ## A line with its comments -/

section Commented

variable {table? : Option Text} {line l : Text}

theorem mem_commented_iff :
    l ∈ commented table? line ↔
      (∃ c ∈ comments table? line, takeBlanks line ++ c = l) ∨ l = line := by
  simp [commented]

theorem isLine_and_ne_nil_of_mem_commented (hline : IsLine line ∧ line ≠ [])
    (h : l ∈ commented table? line) : IsLine l ∧ l ≠ [] := by
  rcases mem_commented_iff.mp h with ⟨c, hc, rfl⟩ | rfl
  · have hr : Remark c := remark_of_mem_comments hc
    have hb : '\n' ∉ takeBlanks line := fun hn => hline.1.1 ((List.takeWhile_sublist _).mem hn)
    exact ⟨hr.isLine.append hr.ne_nil hb, by simp [hr.ne_nil]⟩
  · exact hline

/-- The comments on a line are comment lines before it. -/
theorem commentsAdded_flatMap (table? : Option Text) (ls : List Text) :
    CommentsAdded (ls.flatMap (commented table?)) ls := by
  induction ls with
  | nil => exact .nil
  | cons line ls ih =>
      rw [List.flatMap_cons, commented, List.append_assoc]
      refine .append_comments ?_ (.line line ih)
      intro l hl
      obtain ⟨c, hc, rfl⟩ := List.mem_map.mp hl
      exact (remark_of_mem_comments hc).isComment fun _ => Text.isBlank_of_mem_takeBlanks

/-- The comments on a line declare no function. -/
theorem flatMap_names_commented (table? : Option Text) (line : Text) :
    (commented table? line).flatMap names = names line := by
  have hc : ((comments table? line).map (takeBlanks line ++ ·)).flatMap names = [] := by
    rw [List.flatMap_eq_nil_iff]
    intro l hl
    obtain ⟨c, hc, rfl⟩ := List.mem_map.mp hl
    exact (remark_of_mem_comments hc).names_append fun _ => Text.isBlank_of_mem_takeBlanks
  rw [commented, List.flatMap_append, hc]
  simp

end Commented

/-! ## Commented texts -/

/-- Each line of the header is a line of its own that declares no function. -/
theorem isLine_and_names_of_mem_header : ∀ l ∈ header, IsLine l ∧ names l = [] := by
  decide +kernel

theorem flatMap_names_header : header.flatMap names = [] :=
  List.flatMap_eq_nil_iff.mpr fun l hl => (isLine_and_names_of_mem_header l hl).2

section Annotated

variable (table? : Option Text) {s : Text}

/-- Of a text without lines there is the header only. -/
theorem lines_annotate_nil : lines (annotate table? []) = header :=
  Text.lines_joinLines_append_nil fun l hl => (isLine_and_names_of_mem_header l hl).1

/-- The lines of a commented text are lines for themselves. -/
theorem isLine_of_mem_commentedLines (hl : ∀ l ∈ lines s, IsLine l ∧ l ≠ []) :
    ∀ l ∈ commentedLines table? s, IsLine l := by
  intro l h
  rw [commentedLines, List.mem_append, List.mem_append, List.mem_singleton] at h
  rcases h with (h | rfl) | h
  · exact (isLine_and_names_of_mem_header l h).1
  · exact Text.isLine_nil
  · obtain ⟨line, hline, h⟩ := List.mem_flatMap.mp h
    exact (isLine_and_ne_nil_of_mem_commented (hl line hline) h).1

theorem lines_annotate (hl : ∀ l ∈ lines s, IsLine l ∧ l ≠ []) (hs : lines s ≠ []) :
    lines (annotate table? s) = header ++ [] :: (lines s).flatMap (commented table?) := by
  have hn : (lines s).flatMap (commented table?) ≠ [] := by
    obtain ⟨line, hline⟩ := List.exists_mem_of_ne_nil _ hs
    exact List.ne_nil_of_mem
      (List.mem_flatMap.mpr ⟨line, hline, mem_commented_iff.mpr (.inr rfl)⟩)
  have hj : lines (annotate table? s) = commentedLines table? s := by
    refine Text.lines_joinLines (isLine_of_mem_commentedLines table? hl) ?_
    rw [commentedLines, List.getLast?_append, List.getLast?_eq_some_getLast hn, Option.some_or]
    obtain ⟨line, hline, hlast⟩ := List.mem_flatMap.mp (List.getLast_mem hn)
    exact fun he =>
      (isLine_and_ne_nil_of_mem_commented (hl line hline) hlast).2 (Option.some.inj he)
  rw [hj, commentedLines, List.append_assoc, List.singleton_append]

/-- A line feed after a commented text opens no line. -/
theorem lines_annotate_newline (hl : ∀ l ∈ lines s, IsLine l ∧ l ≠ []) (hs : lines s ≠ []) :
    lines (annotate table? s ++ ['\n']) = lines (annotate table? s) := by
  have hn : commentedLines table? s ≠ [] := by simp [commentedLines]
  rw [lines_annotate table? hl hs, annotate,
    Text.lines_joinLines_newline (isLine_of_mem_commentedLines table? hl) hn, commentedLines,
    List.append_assoc, List.singleton_append]

/-- A commented text declares the functions of the text. -/
theorem flatMap_names_annotate (hl : ∀ l ∈ lines s, IsLine l ∧ l ≠ []) :
    (lines (annotate table? s)).flatMap names = (lines s).flatMap names := by
  by_cases hs : lines s = []
  · have hz : annotate table? s = annotate table? [] := by
      unfold annotate commentedLines
      rw [hs, Text.lines_nil]
    rw [hz, lines_annotate_nil, flatMap_names_header, hs]
    rfl
  · have hc : ∀ ls : List Text,
        (ls.flatMap (commented table?)).flatMap names = ls.flatMap names := by
      intro ls
      rw [List.flatMap_assoc]
      simp only [flatMap_names_commented]
    rw [lines_annotate table? hl hs, List.flatMap_append, flatMap_names_header,
      List.flatMap_cons, hc]
    rfl

end Annotated

end LuaReveal.Commentary

/-! ## Runs with and without comments -/

namespace LuaReveal.Outcome

open Commentary (CommentsAdded annotate header)
open Text (IsLine lines)

/-- The names and the roles of functions, in order. -/
def namesAndRoles (functions : List Signature) : List (Text × Role) :=
  functions.map fun f => (f.name, f.role)

theorem namesAndRoles_eq (functions : List Signature) :
    namesAndRoles functions =
      (functions.map Signature.name).map fun name => (name, Role.ofName name) := by
  rw [List.map_map]
  rfl

variable (settings : Settings) (source : Text)

theorem functions_ofSource :
    (ofSource settings source).functions = Signature.all (ofSource settings source).code := rfl

/-- Comments do not show in what the passes share. -/
theorem statistics_ofSource_comments (b : Bool) :
    (ofSource { settings with comments := b } source).statistics =
      .collect (Passes.ofSource settings source).session settings.policy source
        (ofSource { settings with comments := b } source).code
        (ofSource { settings with comments := b } source).functions.length := rfl

/-- The code of a run with comments is that of one without, commented. -/
theorem exists_code_ofSource_eq :
    ∃ table?, (ofSource { settings with comments := true } source).code =
      annotate table? (ofSource { settings with comments := false } source).code :=
  ⟨_, rfl⟩

theorem isLine_and_ne_nil_of_mem_lines_code {settings : Settings}
    (h : '\n' ∉ settings.indentChar) (source : Text) :
    ∀ l ∈ lines (ofSource { settings with comments := false } source).code,
      IsLine l ∧ l ≠ [] := by
  have hu : '\n' ∉ settings.indentUnit := Settings.newline_notMem_indentUnit h
  obtain ⟨text, hc⟩ : ∃ text, (ofSource { settings with comments := false } source).code =
      Layout.reindent settings.indentUnit text := ⟨_, rfl⟩
  rw [hc, Layout.lines_reindent hu]
  exact fun l hl =>
    ⟨Layout.isLine_of_mem_indentedLines hu hl, Layout.ne_nil_of_mem_indentedLines hl⟩

/-- **Comments are only added**: a run with comments finds and counts what the run
without them does, save the lines of its code, and its code is that of the other with
the header before it and comment lines between its lines. -/
theorem ofSource_comments (h : '\n' ∉ settings.indentChar) :
    let plain := ofSource { settings with comments := false } source
    let commented := ofSource { settings with comments := true } source
    commented.table = plain.table ∧ commented.aliases = plain.aliases ∧
      namesAndRoles commented.functions = namesAndRoles plain.functions ∧
      { commented.statistics with linesProcessed := plain.statistics.linesProcessed } =
        plain.statistics ∧
      (plain.code ≠ [] → ∃ ls, lines commented.code = header ++ [] :: ls ∧
        header.length = 13 ∧ CommentsAdded ls (lines plain.code)) := by
  intro plain commented
  have hl : ∀ l ∈ lines plain.code, IsLine l ∧ l ≠ [] :=
    isLine_and_ne_nil_of_mem_lines_code h source
  obtain ⟨table?, hc⟩ : ∃ table?, commented.code = annotate table? plain.code :=
    exists_code_ofSource_eq settings source
  have hn : commented.functions.map Signature.name = plain.functions.map Signature.name := by
    rw [functions_ofSource, functions_ofSource, Signature.map_name_all, Signature.map_name_all, hc,
      Commentary.flatMap_names_annotate table? hl]
  have hcount : commented.functions.length = plain.functions.length := by
    simpa using congrArg List.length hn
  refine ⟨rfl, rfl, ?_, ?_, ?_⟩
  · rw [namesAndRoles_eq, namesAndRoles_eq, hn]
  · have hs : commented.statistics = .collect (Passes.ofSource settings source).session
        settings.policy source commented.code commented.functions.length :=
      statistics_ofSource_comments settings source true
    have hs' : plain.statistics = .collect (Passes.ofSource settings source).session
        settings.policy source plain.code plain.functions.length :=
      statistics_ofSource_comments settings source false
    rw [hs, hs', hcount]
    rfl
  · intro hcode
    have hne : lines plain.code ≠ [] := fun he => hcode (Text.lines_eq_nil_iff.mp he)
    refine ⟨_, ?_, rfl, Commentary.commentsAdded_flatMap table? _⟩
    rw [hc, Commentary.lines_annotate table? hl hne]

/-- A function whose name ends with the keyword is found once. -/
theorem ofSource_comments_standard :
    let source := "local J=\x7b\"a\"\x7d\nfunction draw.function(x)\nreturn (J[1])\nend".toList
    let plain := ofSource { Settings.standard with comments := false } source
    let commented := ofSource { Settings.standard with comments := true } source
    '\n' ∉ Settings.standard.indentChar ∧
      namesAndRoles commented.functions = namesAndRoles plain.functions ∧
      namesAndRoles plain.functions = [("draw.function".toList, .render)] ∧
      ∃ ls, lines commented.code = header ++ [] :: ls ∧ CommentsAdded ls (lines plain.code) := by
  intro source plain commented
  obtain ⟨_, _, hn, _, hc⟩ := ofSource_comments .standard source (by decide)
  obtain ⟨ls, hl, _, ha⟩ := hc (by decide +kernel)
  exact ⟨by decide, hn, by decide +kernel, ls, hl, ha⟩

end LuaReveal.Outcome
