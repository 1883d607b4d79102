import LuaReveal.Text.Basic

/-!
# LuaReveal.Keyword

The reserved words of Lua, and those among them that open and close blocks.
-/

namespace LuaReveal.Keyword

/-- The reserved words. -/
def reserved : List Text :=
  ["and".toList, "break".toList, "do".toList, "else".toList, "elseif".toList, "end".toList,
   "false".toList, "for".toList, "function".toList, "goto".toList, "if".toList, "in".toList,
   "local".toList, "nil".toList, "not".toList, "or".toList, "repeat".toList, "return".toList,
   "then".toList, "true".toList, "until".toList, "while".toList]

/-- The word is a reserved one. -/
def isReserved (word : Text) : Bool :=
  reserved.contains word

/-- The words that close the block of the lines before. -/
def closers : List Text :=
  ["end".toList, "else".toList, "elseif".toList, "until".toList]

/-- The words that open a block for the lines after. -/
def openers : List Text :=
  ["function".toList, "if".toList, "for".toList, "while".toList, "repeat".toList, "do".toList,
   "then".toList, "else".toList]

/-- The closing words that open no block in turn. -/
def enders : List Text :=
  ["end".toList, "until".toList]

end LuaReveal.Keyword
