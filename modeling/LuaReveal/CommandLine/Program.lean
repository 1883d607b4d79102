import LuaReveal.CommandLine.Command

/-!
# LuaReveal.CommandLine.Program

The program as it is called: what it does with its arguments, what it writes to
its two outputs, and the number that it ends with.
-/

namespace LuaReveal.CommandLine

/-- How the program ends: its exit code, and what it wrote to the standard output
and the error output. -/
structure Ending where
  code : Nat
  output : Text
  errors : Text
  deriving DecidableEq

/-- The text of lines that each end with a line feed. -/
def unlines (lines : List Text) : Text :=
  lines.flatMap (· ++ ['\n'])

/-- The answer to a request for the version. -/
def versionLine : Text :=
  "luadeob 0.1.0".toList

/-- The answer to a request for help. -/
def helpLines : List Text :=
  ["Decode string tables, rename identifiers and re-indent obfuscated Lua",
   "",
   "Usage: luadeob [OPTIONS] <INPUT>",
   "",
   "Options:",
   "  -o, --output <OUTPUT>                Output file",
   "      --suffix <SUFFIX>                Suffix of the output's name [default: _deobfuscated]",
   "      --report <REPORT>                Report file [default: deobfuscation_report.txt]",
   "      --no-report                      Do not write a report",
   "      --escape-policy <ESCAPE_POLICY>  Handling of non-printable octal escapes (preserve, bracket, filter)",
   "      --indent-size <INDENT_SIZE>      Spaces per indentation level [default: 2]",
   "      --no-rename                      Keep single-letter identifiers as they are",
   "      --no-comments                    Do not insert the header and explanatory comments",
   "      --stats-json <STATS_JSON>        Also write the statistics as JSON",
   "  -v, --verbose...                     More detailed progress output (repeatable)",
   "  -q, --quiet                          Only print warnings and errors",
   "  -h, --help                           Print help",
   "  -V, --version                        Print version"].map String.toList

/-- What is told of the events that matter enough. -/
def eventText (level : Level) (events : List Event) : Text :=
  (events.filter fun e => e.level.rank ≤ level.rank).flatMap Event.record

/-- What is said of a result in the end. -/
def closingLines (output : Path) (o : Outcome) : List Text :=
  let s := o.statistics
  [[], "Deobfuscated code written to ".toList ++ output,
   "  ".toList ++ Text.ofNat s.stringsDecoded ++ " strings decoded, ".toList
     ++ Text.ofNat s.functionsFound ++ " functions, ".toList ++ Text.ofNat s.linesProcessed
     ++ " lines, ".toList ++ Text.ofNat s.escapesConverted ++ " escapes converted".toList]
    ++ (o.reportPath.map ("Report: ".toList ++ ·)).toList
    ++ ["Run it with: lua ".toList ++ output]

/-- What is said of a failure in the end. -/
def failureLines (f : Failure) : List Text :=
  ["Error: ".toList ++ f.message, "Deobfuscation failed".toList]

variable {m : Type → Type} [Monad m] [Storage m]

/-- Carries out a command. -/
def Command.execute : Command → m Ending
  | .help => return ⟨0, unlines helpLines, []⟩
  | .version => return ⟨0, unlines [versionLine], []⟩
  | .run job level => do
    let (events, result) ← job.run
    let told := eventText level events
    match result with
    | .ok outcome => return ⟨0, [], told ++ unlines (closingLines job.output outcome)⟩
    | .error failure => return ⟨1, [], told ++ unlines (failureLines failure)⟩

/-- Runs the program with its arguments. -/
def runProgram (arguments : List Text) : m Ending :=
  match Command.ofArguments arguments with
  | .ok command => command.execute
  | .error e => return ⟨2, [], unlines ["error: ".toList ++ e.message]⟩

end LuaReveal.CommandLine
