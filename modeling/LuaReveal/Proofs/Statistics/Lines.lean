import LuaReveal.Proofs.Commentary.Additive
import LuaReveal.Proofs.FileJob.Effects

/-!
# LuaReveal.Proofs.Statistics.Lines

Where the lines of the result come from (`linesProcessed_ofSource`).  Indenting
writes one line for each line of the text that is not blank (`length_lines_reindent`).
Comments put the header and an empty line before them, and over each line one
comment for each function in it and one if a landmark is there
(`length_flatMap_commented`).  Comments declare no function, so the functions that
are counted are those that the comments are about.

The lines of the file are those of the code: a line feed ends the last line, and
opens none.
-/

namespace LuaReveal

open Text (IsLine dropBlanks isBlank lines takeBlanks)

/-! ## Lines that are indented -/

namespace Layout

/-- The number of lines that are not blank. -/
def filledCount (s : Text) : Nat :=
  (lines s).countP fun l => l.any fun c => !isBlank c

/-- The lines of code are those that are not blank. -/
theorem length_codeLines (s : Text) : (codeLines s).length = filledCount s := by
  have hb (l : Text) : (!(Text.trim l).isEmpty) = l.any fun c => !isBlank c := by
    rw [Bool.eq_iff_iff, Bool.not_eq_true', List.isEmpty_eq_false_iff, ne_eq,
      Text.trim_eq_nil_iff, List.any_eq_true]
    simp
  rw [codeLines, ← List.countP_eq_length_filter, List.countP_map, filledCount]
  exact List.countP_congr fun l _ => by rw [Function.comp_apply, hb]

/-- An indented text has as many lines as the text has lines that are not blank. -/
theorem length_lines_reindent {unit : Text} (hu : '\n' ∉ unit) (s : Text) :
    (lines (reindent unit s)).length = filledCount s := by
  rw [lines_reindent hu, indentedLines_eq, List.length_map, ← length_codeLines,
    ← List.length_map Prod.snd, map_snd_placedFrom]

end Layout

/-! ## Lines with comments -/

namespace Commentary

variable (table? : Option Text)

/-- There is a landmark at the start of the line, behind its leading blanks. -/
def hasLandmark (line : Text) : Bool :=
  (Landmark.all table?).any (Landmark.isAt (dropBlanks line))

/-- The number of lines that have a landmark. -/
def landmarkCount (s : Text) : Nat :=
  (lines s).countP (hasLandmark table?)

/-- The blanks in front of a line hide none of its functions. -/
theorem names_dropBlanks (line : Text) :
    Signature.names (dropBlanks line) = Signature.names line := by
  have hb : ∀ c ∈ takeBlanks line, isBlank c = true := fun _ => Text.isBlank_of_mem_takeBlanks
  rw [← Signature.names_append_of_blanks hb (dropBlanks line), Text.takeBlanks_append_dropBlanks]

/-- A line gets a comment for a landmark and one for each function. -/
theorem length_commented (line : Text) :
    (commented table? line).length =
      1 + (Signature.names line).length + (if hasLandmark table? line then 1 else 0) := by
  have hm : ((Landmark.find? table? (dropBlanks line)).map Landmark.comment).toList.length =
      if hasLandmark table? line then 1 else 0 := by
    rw [hasLandmark, ← List.isSome_find?, ← Landmark.find?]
    cases Landmark.find? table? (dropBlanks line) with
    | none => rfl
    | some m => rfl
  rw [commented, comments, names_dropBlanks, List.length_append, List.length_map,
    List.length_append, hm, List.length_map, List.length_singleton]
  omega

/-- Lines with their comments are the lines, one more for each function in them, and
one more for each of them that has a landmark. -/
theorem length_flatMap_commented (ls : List Text) :
    (ls.flatMap (commented table?)).length =
      ls.length + (ls.flatMap Signature.names).length + ls.countP (hasLandmark table?) := by
  induction ls with
  | nil => rfl
  | cons l ls ih =>
      simp only [List.flatMap_cons, List.length_append, List.length_cons, List.countP_cons]
      rw [length_commented, ih]
      omega

end Commentary

/-! ## Lines of the code -/

namespace Outcome

open Commentary (commented header landmarkCount)
open Layout (filledCount)

variable {settings : Settings} {source : Text}

theorem code_ofSource (settings : Settings) (source : Text) :
    (ofSource settings source).code =
      if settings.comments then
        Commentary.annotate (Passes.ofSource settings source).session.tableName?
          (Passes.ofSource settings source).indented
      else (Passes.ofSource settings source).indented := rfl

section Indented

variable (hu : '\n' ∉ settings.indentChar)
include hu

/-- Each line of the indented text is a line for itself. -/
theorem isLine_and_ne_nil_of_mem_lines_indented (source : Text) :
    ∀ l ∈ lines (Passes.ofSource settings source).indented, IsLine l ∧ l ≠ [] :=
  isLine_and_ne_nil_of_mem_lines_code hu source

/-- The functions that are counted are those of the indented text. -/
theorem functionsFound_ofSource :
    (ofSource settings source).statistics.functionsFound =
      ((lines (Passes.ofSource settings source).indented).flatMap Signature.names).length := by
  have hl := isLine_and_ne_nil_of_mem_lines_indented hu source
  have hf : (ofSource settings source).statistics.functionsFound =
      ((Signature.all (ofSource settings source).code).map Signature.name).length := by
    rw [List.length_map]
    rfl
  rw [hf, Signature.map_name_all, code_ofSource]
  split
  · rw [Commentary.flatMap_names_annotate _ hl]
  · rfl

variable (hF : (Passes.ofSource settings source).indented ≠ [])
include hF

/-- The lines of the code are those of the indented text, with comments or without. -/
theorem lines_code_ofSource :
    lines (ofSource settings source).code =
      if settings.comments then
        header ++ [] :: (lines (Passes.ofSource settings source).indented).flatMap
          (commented (Passes.ofSource settings source).session.tableName?)
      else lines (Passes.ofSource settings source).indented := by
  have hl := isLine_and_ne_nil_of_mem_lines_indented hu source
  rw [code_ofSource]
  split
  · exact Commentary.lines_annotate _ hl fun hn => hF (Text.lines_eq_nil_iff.mp hn)
  · rfl

/-- A line feed after the code opens no line. -/
theorem lines_code_newline :
    lines ((ofSource settings source).code ++ ['\n']) = lines (ofSource settings source).code := by
  have hl := isLine_and_ne_nil_of_mem_lines_indented hu source
  rw [code_ofSource]
  split
  · exact Commentary.lines_annotate_newline _ hl fun hn => hF (Text.lines_eq_nil_iff.mp hn)
  · exact Layout.lines_reindent_newline (Settings.newline_notMem_indentUnit hu) hF

end Indented

/-- **Where the lines come from**: if anything is left of a source text, the lines of
its code are those of the renamed text that are not blank, and with comments also the
header, an empty line, a line for each function that is counted, and one over each
line that has a landmark.  The file that a run writes has as many. -/
theorem linesProcessed_ofSource (hu : '\n' ∉ settings.indentChar)
    (hF : (Passes.ofSource settings source).indented ≠ []) :
    let p := Passes.ofSource settings source
    let counts := (ofSource settings source).statistics
    counts.linesProcessed =
        (if settings.comments then
          14 + filledCount p.renamedText + counts.functionsFound
            + landmarkCount p.session.tableName? p.indented
        else filledCount p.renamedText) ∧
      ∀ {σ Place : Type} [Storage (StateM σ)] {v : FileView σ Place} {job : FileJob} {s t : σ}
        {stages : FileJob.Stages σ} {events : List Event} {outcome : Outcome},
        job.settings = settings → stages.source = source →
        FileJob.Finished v job s stages events outcome t →
        ∃ text, FileView.Writes job.output (Text.Utf8.encode text) s stages.afterOutput ∧
          (lines text).length = outcome.statistics.linesProcessed := by
  intro p counts
  have hn : (lines p.indented).length = filledCount p.renamedText :=
    Layout.length_lines_reindent (Settings.newline_notMem_indentUnit hu) p.renamedText
  have hf : counts.functionsFound = ((lines p.indented).flatMap Signature.names).length :=
    functionsFound_ofSource hu
  have hc : counts.linesProcessed =
      (if settings.comments then
        header ++ [] :: (lines p.indented).flatMap (commented p.session.tableName?)
      else lines p.indented).length :=
    congrArg List.length (lines_code_ofSource hu hF)
  have hh : header.length = 13 := rfl
  refine ⟨?_, ?_⟩
  · rw [hc]
    split
    · rw [List.length_append, List.length_cons, Commentary.length_flatMap_commented, ← hf, hn, hh,
        landmarkCount]
      omega
    · exact hn
  · intro σ Place _ v job s t stages events outcome hs hsrc hrun
    subst hs hsrc
    refine ⟨_, hrun.output, ?_⟩
    rw [lines_code_newline hu hF, hrun.outcome_eq]
    rfl

/-- A job on one file that writes nothing beside its result. -/
def plainJob : FileJob where
  settings := { Settings.standard with reportPath := none, statisticsPath := none }
  input := "a.lua".toList
  output := "b.lua".toList

/-- A file system with the input of the job. -/
def inputFiles (source : Text) : FileSystem where
  nodes := [(["a.lua".toList], .file (Text.Utf8.encode source))]
  clock := []

/-- The job can be run wherever there is its input. -/
theorem exists_finished_plainJob (source : Text) :
    ∃ stages events outcome t, stages.source = source ∧
      FileJob.Finished FileSystem.view plainJob (inputFiles source) stages events outcome t := by
  have hw : FileView.Writes plainJob.output (plainJob.outputBytes source) (inputFiles source)
      ((inputFiles source).put ["b.lua".toList] (.file (plainJob.outputBytes source))) := rfl
  exact ⟨⟨source, [], _, .notAsked, _, .notAsked⟩, _, _, _, rfl,
    { input := rfl
      outcome_eq := rfl
      events_eq := rfl
      output := hw
      time := rfl
      report := .notAsked
      statistics := .notAsked }⟩

/-- A line with a landmark and two functions, and a blank line. -/
theorem linesProcessed_ofSource_plainJob :
    let source := "local J=\x7b\"\"\x7d function f(function g.h (\n \t\nreturn(J".toList
    let counts := (ofSource plainJob.settings source).statistics
    '\n' ∉ plainJob.settings.indentChar ∧
      (Passes.ofSource plainJob.settings source).indented ≠ [] ∧
      counts.linesProcessed = 14 + 2 + 2 + 2 ∧
      ∃ text t, FileView.Writes plainJob.output (Text.Utf8.encode text) (inputFiles source) t ∧
        (lines text).length = 14 + 2 + 2 + 2 := by
  intro source counts
  have hu : '\n' ∉ plainJob.settings.indentChar := by decide
  have hF : (Passes.ofSource plainJob.settings source).indented ≠ [] := by decide +kernel
  have hf : counts.functionsFound = 2 := (functionsFound_ofSource hu).trans (by decide +kernel)
  obtain ⟨hl, hw⟩ := linesProcessed_ofSource hu hF
  have hn : counts.linesProcessed = 14 + 2 + 2 + 2 := by
    rw [hl, hf]
    decide +kernel
  obtain ⟨stages, events, outcome, t, hs, hrun⟩ := exists_finished_plainJob source
  obtain ⟨text, ht, hc⟩ := hw rfl hs hrun
  refine ⟨hu, hF, hn, text, _, ht, ?_⟩
  rw [hc, hrun.outcome_eq, hs]
  exact hn

end Outcome

end LuaReveal
