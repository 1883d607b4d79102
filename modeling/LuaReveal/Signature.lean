import LuaReveal.Text.Lines
import LuaReveal.Text.Scan
import LuaReveal.Text.Word

/-!
# LuaReveal.Signature

Signatures of named functions, `function name(`, and the roles that their names
suggest.
-/

namespace LuaReveal

/-! ## Roles -/

/-- What a function is for. -/
inductive Role where
  | setup
  | update
  | render
  | load
  | utility
  deriving DecidableEq

namespace Role

/-- The word for a role. -/
def name : Role → Text
  | setup => "initialize".toList
  | update => "update".toList
  | render => "render".toList
  | load => "load".toList
  | utility => "utility".toList

/-- The role that the name of a function suggests by a word that occurs in it,
in capitals or not. -/
def ofName (name : Text) : Role :=
  let name := name.map Text.toAsciiLower
  if Text.contains "init".toList name then setup
  else if Text.contains "update".toList name then update
  else if Text.contains "draw".toList name || Text.contains "render".toList name then render
  else if Text.contains "load".toList name then load
  else utility

end Role

/-! ## Signatures -/

/-- A named function and the line of its signature, counted from one. -/
structure Signature where
  name : Text
  line : Nat
  deriving DecidableEq

namespace Signature

/-- What the function is for. -/
def role (f : Signature) : Role :=
  Role.ofName f.name

/-- The identifiers, joined by dots and colons, that the text starts with, and
the text after them. -/
def readName? (s : Text) : Option (Text × Text) :=
  match _h : Text.readIdentifier? s with
  | none => none
  | some (word, rest) =>
    match _hr : rest with
    | c :: tail =>
      if c = '.' ∨ c = ':' then
        match readName? tail with
        | some (more, rest) => some (word ++ c :: more, rest)
        | none => some (word, c :: tail)
      else
        some (word, c :: tail)
    | [] => some (word, [])
termination_by s.length
decreasing_by
  rw [← Text.append_of_readIdentifier? _h]
  simp
  omega

/-- The name in the signature at a place: the keyword, blanks, the name, and an
opening parenthesis with blanks before it. -/
def nameAt? (prev : Option Char) (s : Text) : Option Text := do
  let s ← Text.afterKeyword? "function".toList prev s
  let s ← Text.afterBlanks? s
  let (name, s) ← readName? s
  if (Text.dropBlanks s).head? = some '(' then some name else none

/-- The names in the signatures of a line. -/
def names (line : Text) : List Text :=
  Text.occurrences nameAt? line

/-- The signatures of a source text, in order. -/
def all (source : Text) : List Signature :=
  ((Text.lines source).zipIdx 1).flatMap fun (line, number) => (names line).map (⟨·, number⟩)

end Signature

end LuaReveal
