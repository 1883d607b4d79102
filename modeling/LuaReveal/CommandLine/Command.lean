import LuaReveal.CommandLine.Item
import LuaReveal.FileJob

/-!
# LuaReveal.CommandLine.Command

What the arguments of a command ask for. Items are taken from left to right; a
request for help or for the version is granted as soon as it is reached.
-/

namespace LuaReveal.CommandLine

/-! ## Commands -/

/-- What a command asks for. -/
inductive Command where
  | help
  | version
  /-- A run on a file, told down to a level. -/
  | run (job : FileJob) (level : Level)

/-- Why arguments ask for nothing. -/
inductive UsageError where
  | item (error : ItemError)
  | repeated (item : Item)
  | extra (argument : Text)
  | emptyPath
  | policy (word : Escape.Policy.Unknown)
  | indentSize (word : Text)
  | missingInput
  | quietAndVerbose
  deriving DecidableEq

/-- The wording of a usage error. -/
def UsageError.message : UsageError → Text
  | item (.unknown argument) => "unexpected argument '".toList ++ argument ++ "' found".toList
  | item (.missingValue argument) => "a value is required for '".toList ++ argument ++ ['\'']
  | item (.unexpectedValue argument) => "unexpected value in '".toList ++ argument ++ ['\'']
  | repeated _ => "an option cannot be used multiple times".toList
  | extra argument => "unexpected argument '".toList ++ argument ++ "' found".toList
  | emptyPath => "a path must not be empty".toList
  | policy word => word.message
  | indentSize word => "invalid indentation size '".toList ++ word ++ ['\'']
  | missingInput => "the input file is missing".toList
  | quietAndVerbose => "'--quiet' cannot be used with '--verbose'".toList

/-! ## Choices -/

/-- What the items so far have chosen. -/
structure Choices where
  input : Option Path
  output : Option Path
  suffix : Option Text
  report : Option Path
  policy : Option Escape.Policy
  indentSize : Option Nat
  statsJson : Option Path
  noReport : Bool
  noRename : Bool
  noComments : Bool
  verbose : Bool
  quiet : Bool

namespace Choices

/-- Nothing is chosen. -/
def none : Choices :=
  ⟨.none, .none, .none, .none, .none, .none, .none, false, false, false, false, false⟩

/-- The number that a word writes in decimal digits, with a plus sign or without,
if it fits into 64 bits. -/
def readSize? (word : Text) : Option Nat := do
  let digits := match word with
    | '+' :: s => s
    | s => s
  let n ← Text.readNat? digits
  if n < 0x10000000000000000 then some n else .none

/-- Chooses a value that was not chosen before. -/
def once (item : Item) (before : Option α) (value : α) : Except UsageError (Option α) :=
  if before.isSome then .error (.repeated item) else .ok (some value)

/-- Switches on a flag that was off before. -/
def onceFlag (item : Item) (before : Bool) : Except UsageError Bool :=
  if before then .error (.repeated item) else .ok true

/-- The word as a path, which is not empty. -/
def path (word : Text) : Except UsageError Path :=
  if word = [] then .error .emptyPath else .ok word

/-- The choices after an option with a value. -/
def addValue (a : Choices) (k : Key) (word : Text) : Except UsageError Choices := do
  let item := Item.value k word
  match k with
  | .output => return { a with output := ← once item a.output (← path word) }
  | .suffix => return { a with suffix := ← once item a.suffix word }
  | .report => return { a with report := ← once item a.report (← path word) }
  | .statsJson => return { a with statsJson := ← once item a.statsJson (← path word) }
  | .escapePolicy =>
    match Escape.Policy.ofWord word with
    | .ok p => return { a with policy := ← once item a.policy p }
    | .error u => .error (.policy u)
  | .indentSize =>
    match readSize? word with
    | some n => return { a with indentSize := ← once item a.indentSize n }
    | .none => .error (.indentSize word)

/-- The choices after a flag, or the command that it asks for at once. -/
def addFlag (a : Choices) (f : Flag) : Except UsageError (Choices ⊕ Command) := do
  let item := Item.flag f
  match f with
  | .help => return .inr .help
  | .version => return .inr .version
  | .verbose => return .inl { a with verbose := true }
  | .quiet => return .inl { a with quiet := ← onceFlag item a.quiet }
  | .noReport => return .inl { a with noReport := ← onceFlag item a.noReport }
  | .noRename => return .inl { a with noRename := ← onceFlag item a.noRename }
  | .noComments => return .inl { a with noComments := ← onceFlag item a.noComments }

/-- The choices after an argument that stands by itself. -/
def addPositional (a : Choices) (argument : Text) : Except UsageError Choices := do
  if a.input.isSome then .error (.extra argument)
  else return { a with input := some (← path argument) }

/-- The settings that are chosen. -/
def settings (a : Choices) : Settings :=
  let d := Settings.standard
  { d with
    indentSize := a.indentSize.getD d.indentSize
    policy := a.policy.getD d.policy
    renames := !a.noRename
    comments := !a.noComments
    outputSuffix := a.suffix.getD d.outputSuffix
    reportPath := if a.noReport then .none else a.report.or d.reportPath
    statisticsPath := a.statsJson }

/-- The least weighty messages that are told. -/
def level (a : Choices) : Level :=
  if a.quiet then .warn else if a.verbose then .debug else .info

/-- The command that the choices make. -/
def finish (a : Choices) : Except UsageError Command :=
  if a.quiet && a.verbose then .error .quietAndVerbose
  else
    match a.input with
    | .none => .error .missingInput
    | some input =>
      let settings := a.settings
      let output := a.output.getD (Path.defaultOutput input settings.outputSuffix)
      .ok (.run { settings, input, output } a.level)

/-- The command that the choices make once the items are added to them. An error
in an argument comes after the items before it. -/
def addAll (a : Choices) (error : Option ItemError) : List Item → Except UsageError Command
  | [] =>
    match error with
    | some e => .error (.item e)
    | .none => a.finish
  | .value k word :: rest => do (← a.addValue k word).addAll error rest
  | .positional argument :: rest => do (← a.addPositional argument).addAll error rest
  | .flag f :: rest => do
    match ← a.addFlag f with
    | .inl a => a.addAll error rest
    | .inr command => return command

end Choices

/-- The command that the arguments ask for. -/
def Command.ofArguments (arguments : List Text) : Except UsageError Command :=
  let read := readItems arguments
  Choices.none.addAll read.error read.items

end LuaReveal.CommandLine
