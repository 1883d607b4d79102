import LuaReveal.Text.Basic

/-!
# LuaReveal.Path

Paths of a file system whose separator is `/`, taken apart by their text alone.
Empty segments and segments `.` do not count, save a `.` that the path starts
with.
-/

namespace LuaReveal

/-- A path is its text. -/
abbrev Path := Text

namespace Path

/-! ## Parts -/

/-- The root `/` or the `.` that a path starts with, and the text after it. -/
def splitAnchor : Path → Text × Text
  | '/' :: s => (['/'], s)
  | ['.'] => (['.'], [])
  | '.' :: '/' :: s => (['.'], '/' :: s)
  | s => ([], s)

/-- A text read from its end, without the empty segments and the segments `.`
that it ends with. -/
def stripReversed : Text → Text
  | '/' :: s => stripReversed s
  | ['.'] => []
  | '.' :: '/' :: s => stripReversed s
  | s => s

/-- The text after the anchor, read from its end, up to the last segment that
counts. -/
def bodyReversed (p : Path) : Text :=
  stripReversed (splitAnchor p).2.reverse

/-- The last segment of a path, unless it is `..`. -/
def fileName? (p : Path) : Option Text :=
  let name := ((bodyReversed p).takeWhile (· != '/')).reverse
  if name = [] ∨ name = ['.', '.'] then none else some name

/-- The path without its last segment. -/
def parent (p : Path) : Path :=
  (splitAnchor p).1 ++ (stripReversed ((bodyReversed p).dropWhile (· != '/'))).reverse

/-- A name up to its last dot, and what follows the dot. A dot that the name
starts with does not count. -/
def splitName (name : Text) : Text × Option Text :=
  let extension := (name.reverse.takeWhile (· != '.')).reverse
  match name.reverse.dropWhile (· != '.') with
  | [] => (name, none)
  | [_] => (name, none)
  | _ :: stem => (stem.reverse, some extension)

/-- The name of the file without its extension. -/
def stem? (p : Path) : Option Text :=
  (fileName? p).map fun name => (splitName name).1

/-- What follows the last dot in the name of the file. -/
def extension? (p : Path) : Option Text :=
  (fileName? p).bind fun name => (splitName name).2

/-! ## Changing the name -/

/-- The path `q` seen from the directory `p`. A path from the root is seen from
everywhere alike. -/
def join (p q : Path) : Path :=
  if q.head? = some '/' ∨ p = [] then q
  else if p.getLast? = some '/' then p ++ q
  else p ++ '/' :: q

/-- The path with another last segment, or with one more if it has none that
names a file. -/
def withFileName (p : Path) (name : Text) : Path :=
  join (if (fileName? p).isSome then parent p else p) name

/-- Where the result goes if nothing else is said: beside the input, under its
name without the extension, a suffix and `.lua`. -/
def defaultOutput (input : Path) (suffix : Text) : Path :=
  withFileName input ((stem? input).getD [] ++ suffix ++ ".lua".toList)

/-! ## Segments -/

/-- The texts between the separators of a path. -/
def segments : Path → List Text
  | [] => [[]]
  | c :: s =>
    if c = '/' then [] :: segments s
    else
      match segments s with
      | [] => [[c]]
      | w :: ws => (c :: w) :: ws

end Path

end LuaReveal
