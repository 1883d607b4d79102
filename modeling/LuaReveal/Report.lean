import LuaReveal.Outcome
import LuaReveal.Text.Column

/-!
# LuaReveal.Report

A plain-text report on a run: its files, its counts, and what it decoded, renamed
and found.
-/

namespace LuaReveal

/-- What a report is about. -/
structure Report where
  input : Path
  output : Path
  /-- When the result was written. -/
  time : Text
  outcome : Outcome

namespace Report

/-- The width of the report's head. -/
def width : Nat := 79

/-- A value longer than this is cut. -/
def valueLimit : Nat := 60

/-- A line across the report. -/
def rule : Text :=
  List.replicate width '='

/-- The value, cut to the limit and marked with dots if it is longer. -/
def cut (value : Text) : Text :=
  if valueLimit < value.length then value.take valueLimit ++ "...".toList else value

/-- A section: an empty line, the title, and the lines. -/
def titled (title : Text) (lines : List Text) : List Text :=
  [] :: ("--- ".toList ++ title ++ " ---".toList) :: lines

/-- The lines, or a line that says that there are none. -/
def orNone (lines : List Text) : List Text :=
  if lines.isEmpty then ["(none)".toList] else lines

/-- The counts, in a column after their names. -/
def statisticsLines (s : Statistics) : List Text :=
  [("Strings decoded:", s.stringsDecoded), ("Functions found:", s.functionsFound),
   ("Lines processed:", s.linesProcessed), ("Escapes converted:", s.escapesConverted),
   ("Identifiers renamed:", s.identifiersRenamed), ("References inlined:", s.referencesInlined)].map
    fun (name, count) => Text.alignLeft 22 name.toList ++ Text.ofNat count

/-- The line on the entry of a string table with a number. -/
def entryLine (number : Nat) (e : Entry) : Text :=
  Text.alignRight 4 (Text.ofNat number) ++ ". ".toList ++ Text.alignLeft 12 e.key ++ " -> '".toList
    ++ cut e.value ++ ['\'']

/-- The line on a renamed letter. -/
def aliasLine (pair : Char × Text) : Text :=
  pair.1 :: " -> ".toList ++ pair.2

/-- The line on a function. -/
def functionLine (f : Signature) : Text :=
  "line ".toList ++ Text.alignRight 5 (Text.ofNat f.line) ++ ": ".toList ++ f.name ++ " (".toList
    ++ f.role.name ++ ")".toList

/-- The lines of a report; a text in it may hold line ends of its own. -/
def lines (r : Report) : List Text :=
  [rule, Text.center width "LUA DEOBFUSCATION REPORT".toList, rule, [],
   "Input file:   ".toList ++ r.input, "Output file:  ".toList ++ r.output,
   "Processed at: ".toList ++ r.time]
    ++ titled "Statistics".toList (statisticsLines r.outcome.statistics)
    ++ titled "Decoded strings".toList
      (orNone (r.outcome.table.entries.mapIdx fun i e => entryLine (i + 1) e))
    ++ titled "Renamed identifiers".toList (orNone (r.outcome.aliases.pairs.map aliasLine))
    ++ titled "Functions".toList (orNone (r.outcome.functions.map functionLine))
    ++ titled "Running the result".toList ["lua ".toList ++ r.output]

/-- The text of a report; each line ends with a line feed. -/
def text (r : Report) : Text :=
  r.lines.flatMap (· ++ ['\n'])

end Report

end LuaReveal
