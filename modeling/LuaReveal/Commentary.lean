import LuaReveal.Signature

/-!
# LuaReveal.Commentary

Comments added to a source text: a header before it, and comment lines before the
declaration of the string table, before the main `return (` and before each line
with signatures, indented as the line that they are about.
-/

namespace LuaReveal.Commentary

open Text (dropBlanks takeBlanks)

/-- The lines of the header. -/
def header : List Text :=
  ["--[[".toList,
   "    DEOBFUSCATED LUA SOURCE".toList,
   "    Produced by lua-deobfuscator-rs".toList,
   "".toList,
   "    String-table references were replaced with their decoded values,".toList,
   "    single-letter identifiers were renamed and blocks were re-indented.".toList,
   "    The result is best effort and may need manual review.".toList,
   "".toList,
   "    Layout:".toList,
   "    - Decoded string table".toList,
   "    - Function definitions".toList,
   "    - Main program logic".toList,
   "--]]".toList]

/-! ## Landmarks -/

/-- A place of a source text that gets a comment of its own. -/
inductive Landmark where
  /-- The declaration of the string table with the name. -/
  | stringTable (name : Text)
  /-- The result of the whole program, in parentheses. -/
  | mainReturn
  deriving DecidableEq

/-- The text starts with the sign, or with blanks and the sign. -/
def startsWithSign (c : Char) (s : Text) : Bool :=
  (dropBlanks s).head? == some c

/-- The text goes on as the declaration of a table `name` does after `local` and
its blanks. -/
def goesOnAsTable (name s : Text) : Bool :=
  match Text.after? name s with
  | none => false
  | some s =>
    match dropBlanks s with
    | '=' :: s => startsWithSign '\x7b' s
    | _ => false

namespace Landmark

/-- The landmark is at the start of a line without leading blanks. -/
def isAt (line : Text) : Landmark → Bool
  | stringTable name =>
    match Text.after? "local".toList line with
    | some s => Text.anyAfterBlanks (goesOnAsTable name) s
    | none => false
  | mainReturn =>
    match Text.after? "return".toList line with
    | some s => startsWithSign '(' s
    | none => false

/-- The comment on a landmark. -/
def comment : Landmark → Text
  | stringTable _ => "-- Decoded string table".toList
  | mainReturn => "-- Main return".toList

/-- The landmarks of a source text, given the name of its string table. -/
def all (table? : Option Text) : List Landmark :=
  (table?.map stringTable).toList ++ [mainReturn]

/-- The landmark at the start of a line without leading blanks; the string table
comes first. -/
def find? (table? : Option Text) (line : Text) : Option Landmark :=
  (all table?).find? (isAt line)

end Landmark

/-! ## Comments -/

/-- The comment on the function with the name. -/
def functionComment (name : Text) : Text :=
  "-- Function: ".toList ++ name ++ " (".toList ++ (Role.ofName name).name ++ ")".toList

/-- The comments on a line: on the landmark there, and on each function. -/
def comments (table? : Option Text) (line : Text) : List Text :=
  let code := dropBlanks line
  ((Landmark.find? table? code).map Landmark.comment).toList
    ++ (Signature.names code).map functionComment

/-- A line after the comments on it. -/
def commented (table? : Option Text) (line : Text) : List Text :=
  (comments table? line).map (takeBlanks line ++ ·) ++ [line]

/-- The lines of a source text with the header and the comments. -/
def commentedLines (table? : Option Text) (source : Text) : List Text :=
  header ++ [[]] ++ (Text.lines source).flatMap (commented table?)

/-- The source text with the header and the comments. -/
def annotate (table? : Option Text) (source : Text) : Text :=
  Text.joinLines (commentedLines table? source)

end LuaReveal.Commentary
