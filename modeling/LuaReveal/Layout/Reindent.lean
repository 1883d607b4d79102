import LuaReveal.Keyword
import LuaReveal.Layout.LineBuffer
import LuaReveal.Text.Word

/-!
# LuaReveal.Layout.Reindent

Source text indented anew by the block keywords of its lines. Lines are taken
without the blanks at their ends, and lines of blanks are left out. This is no
parser: a line that opens more blocks than it ends is indented too little after.
-/

namespace LuaReveal.Layout

/-! ## Lines and blocks -/

/-- The line closes a block of the lines before: its first word does. -/
def closes (line : Text) : Bool :=
  Keyword.closers.contains (Text.leadingWord line)

/-- Some word of the line is among those given. -/
def hasWordOf (keywords : List Text) (line : Text) : Bool :=
  (Text.words line).any keywords.contains

/-- The line opens a block for the lines after: some word of it opens one, and
none ends one. -/
def opens (line : Text) : Bool :=
  hasWordOf Keyword.openers line && !hasWordOf Keyword.enders line

/-- The lines that hold something, without the blanks at their ends. -/
def codeLines (source : Text) : List Text :=
  ((Text.lines source).map Text.trim).filter fun line => !line.isEmpty

/-! ## Indentation -/

/-- Adds a line of code: a block that it closes ends before it, and a block that
it opens starts after it. -/
def place (b : LineBuffer) (line : Text) : LineBuffer :=
  let placed := (if closes line then b.dedent else b).push line
  if opens line then placed.indent else placed

/-- The source text indented anew, a level of blocks being one `unit`. -/
def reindent (unit source : Text) : Text :=
  ((codeLines source).foldl place (.empty unit)).text

end LuaReveal.Layout
