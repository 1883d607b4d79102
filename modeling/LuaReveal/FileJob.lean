import LuaReveal.Event
import LuaReveal.Report

/-!
# LuaReveal.FileJob

A run on a file: the input is read, the result is written, and after it the
report and the statistics. A report or statistics that cannot be written are
skipped; every other failure ends the run before anything is written.
-/

namespace LuaReveal

/-- A file to read, a file to write, and the choices of the run. -/
structure FileJob where
  settings : Settings
  input : Path
  output : Path
  deriving DecidableEq

namespace FileJob

variable {m : Type → Type} [Monad m] [Storage m]

/-- Writes a text to a file. -/
def writeText (path : Path) (text : Text) : m (Except Failure Unit) := do
  match ← Storage.write path (Text.Utf8.encode text) with
  | .ok () => return .ok ()
  | .error reason => return .error (.storage path reason)

/-- Writes the report, if there is to be one, and says where it was written. -/
def writeReport (job : FileJob) (outcome : Outcome) : m (List Event × Option Path) := do
  match job.settings.reportPath with
  | none => return ([], none)
  | some path =>
    let report : Report :=
      { input := job.input, output := job.output, time := ← Storage.writtenAt job.output, outcome }
    match ← writeText path report.text with
    | .ok () => return ([.reportWritten path], some path)
    | .error reason => return ([.reportSkipped reason], none)

/-- Writes the statistics, if they are to be written. -/
def writeStatistics (job : FileJob) (outcome : Outcome) : m (List Event) := do
  match job.settings.statisticsPath with
  | none => return []
  | some path =>
    match ← writeText path outcome.statistics.toJson with
    | .ok () => return [.statisticsWritten path]
    | .error reason => return [.statisticsSkipped reason]

/-- Writes the result of the passes over the source text, and what goes with it. -/
def finish (job : FileJob) (source : Text) (passes : Passes) :
    m (List Event × Except Failure Outcome) := do
  let outcome := Outcome.ofPasses job.settings.policy source passes
  match ← writeText job.output (outcome.code ++ ['\n']) with
  | .error failure => return ([.writing job.output], .error failure)
  | .ok () =>
    let (reportEvents, reportPath) ← job.writeReport outcome
    let statisticsEvents ← job.writeStatistics outcome
    return (.writing job.output :: reportEvents ++ statisticsEvents,
      .ok { outcome with reportPath })

/-- Runs the job; gives what is told of it and its outcome. -/
def run (job : FileJob) : m (List Event × Except Failure Outcome) := do
  if !(← Storage.isFile job.input) then
    return ([], .error (.inputMissing job.input))
  match ← Storage.read job.input with
  | .error reason => return ([.reading job.input], .error (.storage job.input reason))
  | .ok bytes =>
    match Text.Utf8.decode bytes with
    | .error fault => return ([.reading job.input], .error (.notText job.input fault))
    | .ok source =>
      let passes := Passes.ofSource job.settings source
      let (events, result) ← job.finish source passes
      return (.reading job.input :: passes.events ++ events, result)

end FileJob

end LuaReveal
