import LuaReveal.FileJob
import LuaReveal.Proofs.Storage.Laws
import LuaReveal.Proofs.Text.Utf8

/-!
# LuaReveal.Proofs.FileJob.Effects

What a run on a file does to the files, wherever they are kept
(`run_allOrNothing`):

* A run that fails leaves everything as it was, and its failure says what stood in
  its way: no input, an input that is no text, or a result that cannot be written
  (`Stopped`).
* A run that gives an outcome writes its result and then tries the report and the
  statistics, of which either may be refused (`Finished`, `Attempted`); nothing else
  changes.
-/

namespace LuaReveal.FileJob

open FileView (Writes Refuses)
open Text.Utf8 (encode)

/-! ## Files beside the result -/

/-- What becomes of a file that a run writes beside its result. -/
inductive Fate where
  | notAsked
  | written (path : Path)
  | skipped (path : Path) (reason : StorageError)

/-- The path of the file that was written. -/
def Fate.path? : Fate → Option Path
  | written path => some path
  | _ => none

/-- What is told of the fate of a file. -/
def Fate.events (onWritten : Path → Event) (onSkipped : Failure → Event) : Fate → List Event
  | notAsked => []
  | written path => [onWritten path]
  | skipped path reason => [onSkipped (.storage path reason)]

/-- What follows an action goes on with its result, in the state after it. -/
theorem run_bind_of_run {σ α β : Type} {x : StateM σ α} {f : α → StateM σ β} {a : α} {s t : σ}
    (h : x.run s = (a, t)) : (x >>= f).run s = (f a).run t := by
  rw [StateT.run_bind, h]
  rfl

section Lawful

variable {σ Place : Type} [Storage (StateM σ)] {v : FileView σ Place}

/-- Trying to write the text to a file, if there is to be one, leads from one state
to another.  A file that cannot be written is passed over. -/
inductive Attempted (text : Text) : Option Path → σ → σ → Fate → Prop where
  | notAsked {s : σ} : Attempted text none s s .notAsked
  | written {path : Path} {s t : σ} (h : Writes path (encode text) s t) :
      Attempted text (some path) s t (.written path)
  | skipped {path : Path} {s : σ} {reason : StorageError}
      (h : Refuses path (encode text) s reason) :
      Attempted text (some path) s s (.skipped path reason)

namespace Attempted

variable {text : Text} {asked : Option Path} {s t : σ} {fate : Fate}

theorem place?_eq (h : Attempted text asked s t fate) (hv : v.Lawful) (path : Path) :
    v.place? t path = v.place? s path := by
  cases h with
  | notAsked => rfl
  | written h => exact (hv.stored h).place?_eq path
  | skipped h => rfl

/-- Where no asked path leads to, all stays as it was. -/
theorem node?_eq (h : Attempted text asked s t fate) (hv : v.Lawful) {place : Place}
    (hp : ∀ path, asked = some path → v.place? s path ≠ some place) :
    v.node? t place = v.node? s place := by
  cases h with
  | notAsked => rfl
  | written h => exact (hv.stored h).node?_eq (hp _ rfl)
  | skipped h => rfl

theorem content?_eq (h : Attempted text asked s t fate) (hv : v.Lawful) {other : Path}
    (hp : ∀ path, asked = some path → v.place? s path ≠ v.place? s other) :
    v.content? t other = v.content? s other := by
  cases h with
  | notAsked => rfl
  | written h => exact (hv.stored h).content?_of_ne (hp _ rfl)
  | skipped h => rfl

/-- A file is written if it is asked for and can be. -/
theorem path?_eq_some_iff (h : Attempted text asked s t fate) (path : Path) :
    fate.path? = some path ↔ asked = some path ∧ ∃ t', Writes path (encode text) s t' := by
  cases h with
  | notAsked => simp [Fate.path?]
  | written h =>
      constructor
      · rintro ⟨rfl⟩
        exact ⟨rfl, _, h⟩
      · rintro ⟨⟨rfl⟩, -⟩
        rfl
  | skipped h =>
      constructor
      · rintro ⟨⟩
      · rintro ⟨⟨rfl⟩, t', hw⟩
        exact absurd hw h.not_writes

end Attempted

/-- Whatever is asked for is attempted, and its fate is settled. -/
theorem exists_attempted (hv : v.Lawful) (text : Text) (asked : Option Path) (s : σ) :
    ∃ t fate, Attempted text asked s t fate := by
  cases asked with
  | none => exact ⟨s, _, .notAsked⟩
  | some path =>
      rcases hv.write s path (encode text) with ⟨reason, h⟩ | ⟨t, h, -⟩
      · exact ⟨s, _, .skipped h⟩
      · exact ⟨t, _, .written h⟩

/-! ## Steps of a run -/

variable {job : FileJob} {outcome : Outcome} {path : Path} {text time source : Text}
  {reason : StorageError} {report statistics : Fate} {s s₁ s₂ t : σ}

theorem run_writeText_of_writes (h : Writes path (encode text) s t) :
    (writeText path text : StateM σ (Except Failure Unit)).run s = (.ok (), t) :=
  run_bind_of_run h

theorem run_writeText_of_refuses (h : Refuses path (encode text) s reason) :
    (writeText path text : StateM σ (Except Failure Unit)).run s =
      (.error (.storage path reason), s) :=
  run_bind_of_run h

/-- The text of the report on an outcome. -/
def reportText (job : FileJob) (time : Text) (outcome : Outcome) : Text :=
  Report.text { input := job.input, output := job.output, time, outcome }

theorem run_writeReport
    (htime : (Storage.writtenAt job.output : StateM σ Text).run s = (time, s))
    (h : Attempted (job.reportText time outcome) job.settings.reportPath s t report) :
    (job.writeReport outcome : StateM σ (List Event × Option Path)).run s =
      ((report.events .reportWritten .reportSkipped, report.path?), t) := by
  unfold writeReport
  cases hp : job.settings.reportPath with
  | none =>
      rw [hp] at h
      cases h
      rfl
  | some path =>
      rw [hp] at h
      refine (run_bind_of_run htime).trans ?_
      cases h with
      | written h => exact run_bind_of_run (run_writeText_of_writes h)
      | skipped h => exact run_bind_of_run (run_writeText_of_refuses h)

theorem run_writeStatistics
    (h : Attempted outcome.statistics.toJson job.settings.statisticsPath s t statistics) :
    (job.writeStatistics outcome : StateM σ (List Event)).run s =
      (statistics.events .statisticsWritten .statisticsSkipped, t) := by
  unfold writeStatistics
  cases hp : job.settings.statisticsPath with
  | none =>
      rw [hp] at h
      cases h
      rfl
  | some path =>
      rw [hp] at h
      cases h with
      | written h => exact run_bind_of_run (run_writeText_of_writes h)
      | skipped h => exact run_bind_of_run (run_writeText_of_refuses h)

/-- The paths of what is to be written beside the result. -/
def besidePaths (job : FileJob) : List Path :=
  job.settings.reportPath.toList ++ job.settings.statisticsPath.toList

/-- What is written at the output for a source text: the code and a line feed. -/
def outputBytes (job : FileJob) (source : Text) : List UInt8 :=
  encode ((Outcome.ofSource job.settings source).code ++ ['\n'])

theorem run_finish_of_refuses (h : Refuses job.output (job.outputBytes source) s reason) :
    (job.finish source (.ofSource job.settings source) :
        StateM σ (List Event × Except Failure Outcome)).run s =
      (([.writing job.output], .error (.storage job.output reason)), s) :=
  run_bind_of_run (run_writeText_of_refuses h)

theorem run_finish_of_writes (h : Writes job.output (job.outputBytes source) s s₁)
    (htime : (Storage.writtenAt job.output : StateM σ Text).run s₁ = (time, s₁))
    (hr : Attempted (job.reportText time (.ofSource job.settings source))
      job.settings.reportPath s₁ s₂ report)
    (hs : Attempted (Outcome.ofSource job.settings source).statistics.toJson
      job.settings.statisticsPath s₂ t statistics) :
    (job.finish source (.ofSource job.settings source) :
        StateM σ (List Event × Except Failure Outcome)).run s =
      ((.writing job.output :: report.events .reportWritten .reportSkipped
          ++ statistics.events .statisticsWritten .statisticsSkipped,
        .ok { Outcome.ofSource job.settings source with reportPath := report.path? }), t) := by
  refine (run_bind_of_run (run_writeText_of_writes h)).trans ?_
  refine (run_bind_of_run (run_writeReport htime hr)).trans ?_
  exact run_bind_of_run (run_writeStatistics hs)

/-! ## Runs -/

theorem run_of_missing (hv : v.Lawful) (h : v.content? s job.input = none) :
    (job.run : StateM σ (List Event × Except Failure Outcome)).run s =
      (([], .error (.inputMissing job.input)), s) := by
  have hf := hv.isFile s job.input
  rw [h] at hf
  exact run_bind_of_run hf

theorem run_of_fault (hv : v.Lawful) {bytes : List UInt8} {fault : Text.Utf8.Fault}
    (h : v.content? s job.input = some bytes) (hd : Text.Utf8.decode bytes = .error fault) :
    (job.run : StateM σ (List Event × Except Failure Outcome)).run s =
      (([.reading job.input], .error (.notText job.input fault)), s) := by
  have hf := hv.isFile s job.input
  rw [h] at hf
  refine (run_bind_of_run hf).trans ((run_bind_of_run (hv.read h)).trans ?_)
  simp only [hd]
  rfl

theorem run_of_text (hv : v.Lawful) (h : v.content? s job.input = some (encode source))
    {events : List Event} {result : Except Failure Outcome}
    (hfinish : (job.finish source (.ofSource job.settings source) :
      StateM σ (List Event × Except Failure Outcome)).run s = ((events, result), t)) :
    (job.run : StateM σ (List Event × Except Failure Outcome)).run s =
      ((.reading job.input :: (Passes.ofSource job.settings source).events ++ events, result),
        t) := by
  have hf := hv.isFile s job.input
  rw [h] at hf
  refine (run_bind_of_run hf).trans ((run_bind_of_run (hv.read h)).trans ?_)
  have hd : Text.Utf8.decode (encode source) = .ok source := Text.Utf8.decode_eq_ok_iff.2 rfl
  simp only [hd]
  exact run_bind_of_run hfinish

/-- Why a run from `s` is stopped by a failure: there is no input, or it is no text,
or else the result cannot be written. -/
structure Stopped (v : FileView σ Place) (job : FileJob) (s : σ) (failure : Failure) : Prop where
  kinds : failure = .inputMissing job.input ∨ (∃ fault, failure = .notText job.input fault) ∨
    ∃ reason, failure = .storage job.output reason
  inputMissing_iff : failure = .inputMissing job.input ↔ v.content? s job.input = none
  notText_iff : (∃ fault, failure = .notText job.input fault) ↔
    ∃ bytes, v.content? s job.input = some bytes ∧ ∀ text, encode text ≠ bytes
  storage_iff : ∀ reason, failure = .storage job.output reason ↔
    ∃ source, v.content? s job.input = some (encode source) ∧
      Refuses job.output (job.outputBytes source) s reason

/-- The texts and states between the steps of a run that gives an outcome, and what
became of the files beside its result. -/
structure Stages (σ : Type) where
  source : Text
  /-- When the result was written. -/
  time : Text
  afterOutput : σ
  report : Fate
  afterReport : σ
  statistics : Fate

/-- A run from `s` to `t` that gives an outcome: the result is written, and the
report and the statistics are tried after it. -/
structure Finished (v : FileView σ Place) (job : FileJob) (s : σ) (stages : Stages σ)
    (events : List Event) (outcome : Outcome) (t : σ) : Prop where
  input : v.content? s job.input = some (encode stages.source)
  outcome_eq : outcome =
    { Outcome.ofSource job.settings stages.source with reportPath := stages.report.path? }
  events_eq : events =
    .reading job.input :: (Passes.ofSource job.settings stages.source).events
      ++ (.writing job.output :: stages.report.events .reportWritten .reportSkipped
        ++ stages.statistics.events .statisticsWritten .statisticsSkipped)
  output : Writes job.output (job.outputBytes stages.source) s stages.afterOutput
  time : (Storage.writtenAt job.output : StateM σ Text).run stages.afterOutput =
    (stages.time, stages.afterOutput)
  report : Attempted (job.reportText stages.time (.ofSource job.settings stages.source))
    job.settings.reportPath stages.afterOutput stages.afterReport stages.report
  statistics : Attempted (Outcome.ofSource job.settings stages.source).statistics.toJson
    job.settings.statisticsPath stages.afterReport t stages.statistics

namespace Stopped

variable {failure : Failure}

theorem of_missing (h : v.content? s job.input = none) :
    Stopped v job s (.inputMissing job.input) where
  kinds := .inl rfl
  inputMissing_iff := iff_of_true rfl h
  notText_iff := by simp [h]
  storage_iff := by simp [h]

theorem of_fault {bytes : List UInt8} {fault : Text.Utf8.Fault}
    (h : v.content? s job.input = some bytes) (hd : Text.Utf8.decode bytes = .error fault) :
    Stopped v job s (.notText job.input fault) := by
  have hn : ∀ text, encode text ≠ bytes := Text.Utf8.exists_fault_iff.1 ⟨fault, hd⟩
  exact
    { kinds := .inr (.inl ⟨fault, rfl⟩)
      inputMissing_iff := by simp [h]
      notText_iff := iff_of_true ⟨fault, rfl⟩ ⟨bytes, h, hn⟩
      storage_iff := by
        intro reason
        refine iff_of_false (by simp) ?_
        rintro ⟨source, hs, -⟩
        exact hn source (Option.some.inj (hs.symm.trans h)) }

theorem of_refuses (h : v.content? s job.input = some (encode source))
    (hr : Refuses job.output (job.outputBytes source) s reason) :
    Stopped v job s (.storage job.output reason) where
  kinds := .inr (.inr ⟨reason, rfl⟩)
  inputMissing_iff := by simp [h]
  notText_iff := by
    refine iff_of_false (by simp) ?_
    rintro ⟨bytes, hb, hn⟩
    exact hn source (Option.some.inj (h.symm.trans hb))
  storage_iff := by
    intro reason'
    constructor
    · rintro ⟨rfl⟩
      exact ⟨source, h, hr⟩
    · rintro ⟨source', hs, hr'⟩
      obtain rfl : source = source' :=
        Text.Utf8.encode_injective (Option.some.inj (h.symm.trans hs))
      rw [hr.eq hr']

end Stopped

namespace Finished

variable {stages : Stages σ} {events : List Event}

theorem place?_eq (h : Finished v job s stages events outcome t) (hv : v.Lawful) (path : Path) :
    v.place? t path = v.place? s path := by
  rw [h.statistics.place?_eq hv, h.report.place?_eq hv, (hv.stored h.output).place?_eq]

/-- Only the places that the output, the report and the statistics go to change. -/
theorem node?_eq (h : Finished v job s stages events outcome t) (hv : v.Lawful) {place : Place}
    (hp : ∀ path ∈ job.output :: job.besidePaths, v.place? s path ≠ some place) :
    v.node? t place = v.node? s place := by
  have ho := (hv.stored h.output).place?_eq
  have hr := h.report.place?_eq hv
  rw [h.statistics.node?_eq hv, h.report.node?_eq hv,
    (hv.stored h.output).node?_eq (hp _ (by simp))]
  · intro path hpath
    rw [ho]
    exact hp path (by simp [besidePaths, hpath])
  · intro path hpath
    rw [hr, ho]
    exact hp path (by simp [besidePaths, hpath])

/-- The output has the code of the source text, unless what goes with it was asked
for at the same place. -/
theorem content?_output (h : Finished v job s stages events outcome t) (hv : v.Lawful)
    (hp : ∀ path ∈ job.besidePaths, v.place? s path ≠ v.place? s job.output) :
    v.content? t job.output = some (job.outputBytes stages.source) := by
  have ho := (hv.stored h.output).place?_eq
  have hr := h.report.place?_eq hv
  rw [h.statistics.content?_eq hv, h.report.content?_eq hv, (hv.stored h.output).content?_eq]
  · intro path hpath
    rw [ho, ho]
    exact hp path (by simp [besidePaths, hpath])
  · intro path hpath
    rw [hr, hr, ho, ho]
    exact hp path (by simp [besidePaths, hpath])

theorem reportPath_eq_some_iff (h : Finished v job s stages events outcome t) (path : Path) :
    outcome.reportPath = some path ↔ job.settings.reportPath = some path ∧
      ∃ t', Writes path (encode (job.reportText stages.time (.ofSource job.settings stages.source)))
        stages.afterOutput t' := by
  rw [h.outcome_eq]
  exact h.report.path?_eq_some_iff path

end Finished

/-- **All or nothing**: a run that fails changes nothing, and its failure tells what
stopped it.  A run that gives an outcome names the report's path exactly if the
report was asked for and could be written.  It changes only what the output, the
report and the statistics lead to, and the output has the code and a line feed unless
the report or the statistics go to the same place. -/
theorem run_allOrNothing (hv : v.Lawful) (job : FileJob) (s : σ) :
    match (job.run : StateM σ (List Event × Except Failure Outcome)).run s with
    | ((_, .error failure), t) => t = s ∧ Stopped v job s failure
    | ((events, .ok outcome), t) => ∃ stages, Finished v job s stages events outcome t ∧
        (∀ path, outcome.reportPath = some path ↔ job.settings.reportPath = some path ∧
          ∃ t', Writes path
            (encode (job.reportText stages.time (.ofSource job.settings stages.source)))
            stages.afterOutput t') ∧
        (∀ path, v.place? t path = v.place? s path) ∧
        (∀ place, (∀ path ∈ job.output :: job.besidePaths, v.place? s path ≠ some place) →
          v.node? t place = v.node? s place) ∧
        ((∀ path ∈ job.besidePaths, v.place? s path ≠ v.place? s job.output) →
          v.content? t job.output = some (job.outputBytes stages.source)) := by
  cases hc : v.content? s job.input with
  | none =>
      rw [run_of_missing hv hc]
      exact ⟨rfl, .of_missing hc⟩
  | some bytes =>
      cases hd : Text.Utf8.decode bytes with
      | error fault =>
          rw [run_of_fault hv hc hd]
          exact ⟨rfl, .of_fault hc hd⟩
      | ok source =>
          obtain rfl := Text.Utf8.decode_eq_ok_iff.1 hd
          rcases hv.write s job.output (job.outputBytes source) with ⟨reason, hr⟩ | ⟨s₁, hw, -⟩
          · rw [run_of_text hv hc (run_finish_of_refuses hr)]
            exact ⟨rfl, .of_refuses hc hr⟩
          · obtain ⟨time, htime⟩ := hv.writtenAt s₁ job.output
            obtain ⟨s₂, report, hreport⟩ := exists_attempted hv
              (job.reportText time (.ofSource job.settings source)) job.settings.reportPath s₁
            obtain ⟨t, statistics, hstatistics⟩ := exists_attempted hv
              (Outcome.ofSource job.settings source).statistics.toJson
              job.settings.statisticsPath s₂
            rw [run_of_text hv hc (run_finish_of_writes hw htime hreport hstatistics)]
            have h : Finished v job s ⟨source, time, s₁, report, s₂, statistics⟩ _ _ t :=
              ⟨hc, rfl, rfl, hw, htime, hreport, hstatistics⟩
            exact ⟨_, h, h.reportPath_eq_some_iff, h.place?_eq hv, fun _ => h.node?_eq hv,
              h.content?_output hv⟩

end Lawful

/-! ### A report that cannot be written -/

/-- A file to read, beside a directory. -/
def sampleFiles : FileSystem where
  nodes := [(["a.lua".toList], .file (encode "print(1)".toList)), (["d".toList], .directory)]
  clock := []

/-- A job whose report is asked for where the directory lies. -/
def sampleJob : FileJob where
  settings := { Settings.standard with
    reportPath := some "d".toList, statisticsPath := some "c.json".toList }
  input := "a.lua".toList
  output := "b.lua".toList

/-- On a file system as a value: the report is skipped, the input is what it was, and
the output has the code. -/
theorem run_allOrNothing_skippedReport :
    FileSystem.view.Lawful ∧
      match (sampleJob.run : StateM FileSystem (List Event × Except Failure Outcome)).run
        sampleFiles with
      | ((_, .error _), _) => False
      | ((events, .ok outcome), t) =>
          .reportSkipped (.storage "d".toList .isDirectory) ∈ events ∧
          ∃ stages, Finished FileSystem.view sampleJob sampleFiles stages events outcome t ∧
            t.lookup ["a.lua".toList] = sampleFiles.lookup ["a.lua".toList] ∧
            FileSystem.view.content? t "b.lua".toList =
              some (sampleJob.outputBytes stages.source) := by
  refine ⟨FileSystem.lawful_view, ?_⟩
  have h := run_allOrNothing FileSystem.lawful_view sampleJob sampleFiles
  have hr :
      let r := (sampleJob.run : StateM FileSystem (List Event × Except Failure Outcome)).run
        sampleFiles
      r.1.2.toBool = true ∧ .reportSkipped (.storage "d".toList .isDirectory) ∈ r.1.1 := by
    decide +kernel
  generalize (sampleJob.run : StateM FileSystem (List Event × Except Failure Outcome)).run
    sampleFiles = r at h hr
  match r, h, hr with
  | ((_, .error _), _), _, hr => exact absurd hr.1 (by simp [Except.toBool])
  | ((events, .ok outcome), t), ⟨stages, hf, _, _, hn, hc⟩, hr =>
      exact ⟨hr.2, stages, hf, hn ["a.lua".toList] (by decide +kernel), hc (by decide +kernel)⟩

end LuaReveal.FileJob
