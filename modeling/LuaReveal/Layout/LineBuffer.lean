import LuaReveal.Text.Lines

/-!
# LuaReveal.Layout.LineBuffer

Lines collected under an indentation that can grow and shrink.
-/

namespace LuaReveal

/-- The lines so far, the number of units that the next line is indented by, and
the unit. -/
structure LineBuffer where
  unit : Text
  level : Nat
  lines : Array Text

namespace LineBuffer

/-- No lines and no indentation. -/
def empty (unit : Text) : LineBuffer := ⟨unit, 0, #[]⟩

/-- What the next line is indented by. -/
def indentation (b : LineBuffer) : Text :=
  Text.repeated b.level b.unit

/-- Adds a line as it is. -/
def pushRaw (b : LineBuffer) (line : Text) : LineBuffer :=
  { b with lines := b.lines.push line }

/-- Adds a line under the indentation. -/
def push (b : LineBuffer) (line : Text) : LineBuffer :=
  b.pushRaw (b.indentation ++ line)

/-- Indents the following lines by one unit more. -/
def indent (b : LineBuffer) : LineBuffer :=
  { b with level := b.level + 1 }

/-- Indents the following lines by one unit less, if they are indented at all. -/
def dedent (b : LineBuffer) : LineBuffer :=
  { b with level := b.level - 1 }

/-- The lines as one text, without a line end after the last. -/
def text (b : LineBuffer) : Text :=
  Text.joinLines b.lines.toList

end LineBuffer

end LuaReveal
