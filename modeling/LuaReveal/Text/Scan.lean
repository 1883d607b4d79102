import LuaReveal.Text.Basic

/-!
# LuaReveal.Text.Scan

Searching a text for the places where a recogniser succeeds. A search for
occurrences tries every place. A scan goes on after what was taken, so the
pieces that it finds do not overlap, and together with the characters between
them they make up the text.
-/

namespace LuaReveal.Text

/-! ## Occurrences -/

/-- The answers of `find` at all places of a text that starts after the
character `prev`. At each place `find` sees the character before it and the text
from there on. -/
def occurrencesAfter (find : Option Char → Text → Option α) (prev : Option Char) :
    Text → List α
  | [] => []
  | c :: s => (find prev (c :: s)).toList ++ occurrencesAfter find (some c) s

/-- The answers of `find` at all places of a text. -/
def occurrences (find : Option Char → Text → Option α) (s : Text) : List α :=
  occurrencesAfter find none s

/-! ## Recognisers -/

/-- What was recognised at a place: a value, the text it was read from, and the
text after that. -/
structure Found (α : Type) where
  value : α
  taken : Text
  rest : Text

/-- A recogniser looks at the character before a place and at the text from
there on. It takes at least one character, and what it takes and leaves is the
text that it was given. -/
structure Recognizer (α : Type) where
  find : Option Char → Text → Option (Found α)
  taken_append_rest : ∀ {prev s f}, find prev s = some f → f.taken ++ f.rest = s
  taken_ne_nil : ∀ {prev s f}, find prev s = some f → f.taken ≠ []

/-- What a recogniser leaves is shorter than what it was given. -/
theorem Recognizer.length_rest_lt (r : Recognizer α) {prev : Option Char} {s : Text} {f : Found α}
    (h : r.find prev s = some f) : f.rest.length < s.length := by
  have hs := congrArg List.length (r.taken_append_rest h)
  have hn := List.length_pos_iff.mpr (r.taken_ne_nil h)
  simp only [List.length_append] at hs
  omega

/-! ## Scanning -/

/-- A piece of a scanned text: a character at which nothing was recognised, or
something recognised and the text it was read from. -/
inductive Piece (α : Type) where
  | plain (c : Char)
  | found (value : α) (taken : Text)

namespace Piece

/-- The text that a piece was read from. -/
def text : Piece α → Text
  | plain c => [c]
  | found _ taken => taken

/-- The recognised value of a piece, if it has one. -/
def value? : Piece α → Option α
  | plain _ => none
  | found value _ => some value

end Piece

/-- The pieces of a text that starts after the character `prev`, from left to
right. -/
def Recognizer.scanAfter (r : Recognizer α) (prev : Option Char) : Text → List (Piece α)
  | [] => []
  | c :: s =>
    match _h : r.find prev (c :: s) with
    | some f => .found f.value f.taken :: r.scanAfter f.taken.getLast? f.rest
    | none => .plain c :: r.scanAfter (some c) s
termination_by s => s.length
decreasing_by
  · exact r.length_rest_lt _h
  · simp

/-- The pieces of a text, from left to right. -/
def Recognizer.scan (r : Recognizer α) (s : Text) : List (Piece α) :=
  r.scanAfter none s

/-- Nothing of the text is lost in its pieces. -/
theorem Recognizer.flatMap_text_scanAfter (r : Recognizer α) (prev : Option Char) (s : Text) :
    (r.scanAfter prev s).flatMap Piece.text = s := by
  fun_induction Recognizer.scanAfter r prev s with
  | case1 => rfl
  | case2 prev c s f h ih =>
    rw [List.flatMap_cons, ih]
    exact r.taken_append_rest h
  | case3 prev c s h ih =>
    rw [List.flatMap_cons, ih]
    rfl

/-- Nothing of the text is lost in its pieces. -/
@[simp] theorem Recognizer.flatMap_text_scan (r : Recognizer α) (s : Text) :
    (r.scan s).flatMap Piece.text = s :=
  r.flatMap_text_scanAfter none s

end LuaReveal.Text
