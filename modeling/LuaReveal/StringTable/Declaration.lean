import LuaReveal.StringTable.Basic
import LuaReveal.Text.Word

/-!
# LuaReveal.StringTable.Declaration

The declaration of a string table, `local name = { "..", ".." }` with nothing
but literals between the braces. A literal is followed by a comma, a semicolon
or neither, and blanks may stand between all parts.
-/

namespace LuaReveal.StringTable

open Text (dropBlanks afterBlanks? afterKeyword? readIdentifier?)

/-- A declaration: the name of the table and the bodies of its literals. -/
structure Declaration where
  name : Text
  bodies : List Text
  deriving DecidableEq

/-- The text after blanks, at most one separator, and blanks. -/
def dropSeparator (s : Text) : Text :=
  match dropBlanks s with
  | ',' :: s => dropBlanks s
  | ';' :: s => dropBlanks s
  | s => s

theorem length_dropSeparator_le (s : Text) : (dropSeparator s).length ≤ s.length := by
  have hd : ∀ t : Text, (dropBlanks t).length ≤ t.length := fun t =>
    (List.dropWhile_suffix Text.isBlank).length_le
  have hs := hd s
  unfold dropSeparator
  split
  · next r h =>
    rw [h, List.length_cons] at hs
    have := hd r
    omega
  · next r h =>
    rw [h, List.length_cons] at hs
    have := hd r
    omega
  · exact hs

/-- The bodies of one or more literals that the text starts with, up to a
closing brace. -/
def readBodies? (s : Text) : Option (List Text) :=
  match s with
  | '"' :: s =>
    match _h : Literal.readBody? .lines s with
    | none => none
    | some (body, rest) =>
      match dropSeparator rest with
      | '}' :: _ => some [body]
      | _ => (readBodies? (dropSeparator rest)).map (body :: ·)
  | _ => none
termination_by s.length
decreasing_by
  have := Literal.length_rest_lt_of_readBody? _h
  have := length_dropSeparator_le rest
  simp only [List.length_cons]
  omega

/-- The text from the first character that is no blank, after the character `c`
with blanks before it. -/
def afterSign? (c : Char) (s : Text) : Option Text :=
  match dropBlanks s with
  | d :: s => if d = c then some (dropBlanks s) else none
  | [] => none

/-- The declaration at a place. -/
def Declaration.find? (prev : Option Char) (s : Text) : Option Declaration := do
  let s ← afterKeyword? "local".toList prev s
  let s ← afterBlanks? s
  let (name, s) ← readIdentifier? s
  let s ← afterSign? '=' s
  let s ← afterSign? '\x7b' s
  let bodies ← readBodies? s
  return ⟨name, bodies⟩

/-- The first declaration of a string table in a source text. -/
def Declaration.first? (source : Text) : Option Declaration :=
  (Text.occurrences Declaration.find? source).head?

/-- The table that the source text declares first; later tables do not count. -/
def ofSource (policy : Escape.Policy) (source : Text) : StringTable :=
  match Declaration.first? source with
  | some d => ofBodies policy d.name d.bodies
  | none => empty

end LuaReveal.StringTable
