import LuaReveal.Failure
import LuaReveal.Session
import LuaReveal.Text.Column
import LuaReveal.Text.Control

/-!
# LuaReveal.Event

What a run tells about its progress, and how much each message matters.
-/

namespace LuaReveal

/-- How much a message matters. -/
inductive Level where
  | warn
  | info
  | debug
  deriving DecidableEq

namespace Level

/-- The place in the order from the messages that matter most. -/
def rank : Level → Nat
  | warn => 0
  | info => 1
  | debug => 2

/-- The word for a level. -/
def name : Level → Text
  | warn => "WARN".toList
  | info => "INFO".toList
  | debug => "DEBUG".toList

end Level

/-- A step of a run that is told. -/
inductive Event where
  | extracting
  | noTable
  | tableFound (name : Text) (size : Nat)
  | stringsDecoded (count : Nat)
  | inlining
  | inlined (count : Nat) (name : Text)
  | decoding
  | renamingLetters
  | renamed (letter : Char) (word : Text)
  | indenting
  | commenting
  | reading (path : Path)
  | writing (path : Path)
  | reportWritten (path : Path)
  | reportSkipped (reason : Failure)
  | statisticsWritten (path : Path)
  | statisticsSkipped (reason : Failure)
  deriving DecidableEq

namespace Event

/-- How much an event matters. -/
def level : Event → Level
  | noTable | tableFound _ _ | inlined _ _ | renamed _ _ => .debug
  | reportSkipped _ | statisticsSkipped _ => .warn
  | _ => .info

/-- The wording of an event. -/
def message : Event → Text
  | extracting => "Extracting string table...".toList
  | noTable => "No string table declaration found".toList
  | tableFound name size =>
    "String table '".toList ++ name ++ "' holds ".toList ++ Text.ofNat size ++ " entries".toList
  | stringsDecoded count => "Decoded ".toList ++ Text.ofNat count ++ " strings".toList
  | inlining => "Inlining string table references...".toList
  | inlined count name =>
    "Inlined ".toList ++ Text.ofNat count ++ " references to '".toList ++ name ++ ['\'']
  | decoding => "Decoding octal escapes in string literals...".toList
  | renamingLetters => "Renaming single-letter identifiers...".toList
  | renamed letter word =>
    "Renaming '".toList ++ letter :: "' -> '".toList ++ word ++ ['\'']
  | indenting => "Re-indenting code...".toList
  | commenting => "Adding explanatory comments...".toList
  | reading path => "Reading ".toList ++ path
  | writing path => "Writing result to ".toList ++ path
  | reportWritten path => "Report written to ".toList ++ path
  | reportSkipped reason => "Skipping report: ".toList ++ reason.message
  | statisticsWritten path => "Statistics written to ".toList ++ path
  | statisticsSkipped reason => "Skipping statistics: ".toList ++ reason.message

/-- The message on a line of its own, after its level in brackets. The lines of a
message after its first are indented. -/
def line (e : Event) : Text :=
  '[' :: Text.alignLeft 5 e.level.name ++ "] ".toList
    ++ e.message.flatMap (fun c => if c = '\n' then "\n    ".toList else [c])

/-- What is written of an event: its line and a line feed, as far as they show. -/
def record (e : Event) : Text :=
  Text.visible (e.line ++ ['\n'])

end Event

/-- What is told of a string table that was looked for. -/
def StringTable.events (t : StringTable) : List Event :=
  [.extracting,
    match t.name with
    | some name => .tableFound name t.size
    | none => .noTable,
    .stringsDecoded t.size]

/-- What is told of the passes over a source text, from the search for its string
table on. -/
def Passes.events (p : Passes) : List Event :=
  p.session.table.events
    ++ [.inlining]
    ++ (match p.session.table.name with
      | some name => if p.session.table.entries = [] then [] else [.inlined p.inlining.count name]
      | none => [])
    ++ [.decoding]
    ++ (match p.renamed with
      | some r => .renamingLetters :: r.renamed.map fun (letter, word) => .renamed letter word
      | none => [])
    ++ [.indenting]
    ++ if p.comments then [.commenting] else []

end LuaReveal
