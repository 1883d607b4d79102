import LuaReveal.Escape.Policy
import LuaReveal.Path

/-!
# LuaReveal.Settings

What a run may be told.
-/

namespace LuaReveal

/-- The choices of a run. -/
structure Settings where
  /-- How often the indentation character stands in a level of indentation. -/
  indentSize : Nat
  /-- What a level of indentation is made of. -/
  indentChar : Text
  policy : Escape.Policy
  /-- Names of one letter get aliases. -/
  renames : Bool
  /-- The header and the comments are added. -/
  comments : Bool
  /-- What the name of the result adds to that of the input. -/
  outputSuffix : Text
  /-- Where the report goes, if there is to be one. -/
  reportPath : Option Path
  /-- Where the statistics go, if they are to be written. -/
  statisticsPath : Option Path
  deriving DecidableEq

namespace Settings

/-- The choices of a run that is told nothing. -/
def standard : Settings where
  indentSize := 2
  indentChar := [' ']
  policy := .standard
  renames := true
  comments := true
  outputSuffix := "_deobfuscated".toList
  reportPath := some "deobfuscation_report.txt".toList
  statisticsPath := none

/-- A level of indentation. -/
def indentUnit (s : Settings) : Text :=
  Text.repeated s.indentSize s.indentChar

end Settings

end LuaReveal
