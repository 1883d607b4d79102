import LuaReveal.StringTable.Basic
import LuaReveal.Text.Word

/-!
# LuaReveal.StringTable.Reference

References `name[digits]` to a string table, and a source text with the literals
of the table in their place.
-/

namespace LuaReveal.StringTable

open Text (Found Recognizer Piece takeBlanks dropBlanks isDigit)

/-! ## References -/

/-- The reference to the table `name` at a place; its value is its digits.
Blanks may stand around the opening bracket and the digits. -/
def Reference.find? (name : Text) (prev : Option Char) (s : Text) : Option (Found Text) :=
  if Text.isBorder prev s then
    match Text.after? name s with
    | none => none
    | some s₁ =>
      match dropBlanks s₁ with
      | '[' :: s₂ =>
        let s₃ := dropBlanks s₂
        let digits := s₃.takeWhile isDigit
        let s₄ := s₃.dropWhile isDigit
        match dropBlanks s₄ with
        | ']' :: rest =>
          if digits.isEmpty then none
          else
            some
              ⟨digits,
                name ++ takeBlanks s₁ ++ '[' :: takeBlanks s₂ ++ digits ++ takeBlanks s₄ ++ [']'],
                rest⟩
        | _ => none
      | _ => none
  else
    none

theorem Reference.append_of_find? {name : Text} {prev : Option Char} {s : Text} {f : Found Text}
    (h : Reference.find? name prev s = some f) : f.taken ++ f.rest = s ∧ f.taken ≠ [] := by
  unfold Reference.find? at h
  split at h
  · split at h
    · simp at h
    · next s₁ h₁ =>
      rw [Text.after?_eq_some_iff] at h₁
      split at h
      · next s₂ h₂ =>
        dsimp only at h
        split at h
        · next rest h₄ =>
          split at h
          · simp at h
          · obtain rfl := by simpa using h
            refine ⟨?_, by simp⟩
            simp only [List.append_assoc, List.cons_append, List.nil_append]
            rw [← h₄, Text.takeBlanks_append_dropBlanks, List.takeWhile_append_dropWhile,
              Text.takeBlanks_append_dropBlanks, ← h₂, Text.takeBlanks_append_dropBlanks, h₁]
        · simp at h
      · simp at h
  · simp at h

/-- Recognises the references to the table `name`. -/
def reference (name : Text) : Recognizer Text where
  find := Reference.find? name
  taken_append_rest h := (Reference.append_of_find? h).1
  taken_ne_nil h := (Reference.append_of_find? h).2

/-- The entry that the digits of a reference point at. Digits other than `0` to
`9` point at none. -/
def resolve? (t : StringTable) (digits : Text) : Option Entry :=
  (Text.readNat? digits).bind t.get?

/-! ## Inlining -/

/-- A source text after inlining, and the number of references that it took. -/
structure Inlining where
  code : Text
  count : Nat
  deriving DecidableEq

/-- The entry that a piece of the source text points at. -/
def target? (t : StringTable) (p : Piece Text) : Option Entry :=
  p.value?.bind t.resolve?

/-- What stands for a piece of the source text after inlining: the literal of
the entry that it points at, or else its own text. -/
def inlinePiece (t : StringTable) (p : Piece Text) : Text :=
  match t.target? p with
  | some entry => entry.literal
  | none => p.text

/-- The source text with the literals of the table in place of the references
that point at one. -/
def inline (t : StringTable) (source : Text) : Inlining :=
  match t.name with
  | none => ⟨source, 0⟩
  | some name =>
    let pieces := (reference name).scan source
    ⟨pieces.flatMap t.inlinePiece, pieces.countP fun p => (t.target? p).isSome⟩

end LuaReveal.StringTable
