import LuaReveal.Text.Basic

/-!
# LuaReveal.Text.Blank

The characters with the Unicode property White_Space, and texts without the
blanks at their ends.
-/

namespace LuaReveal.Text

/-- The code points with the property White_Space. -/
def blankRanges : List (Nat × Nat) :=
  [(0x9, 0xD), (0x20, 0x20), (0x85, 0x85), (0xA0, 0xA0), (0x1680, 0x1680), (0x2000, 0x200A),
   (0x2028, 0x2029), (0x202F, 0x202F), (0x205F, 0x205F), (0x3000, 0x3000)]

/-- A blank is a character with the property White_Space. -/
def isBlank (c : Char) : Bool :=
  inRanges blankRanges c

/-- The text from its first character on that is no blank. -/
def dropBlanks (s : Text) : Text :=
  s.dropWhile isBlank

/-- The blanks that the text starts with. -/
def takeBlanks (s : Text) : Text :=
  s.takeWhile isBlank

@[simp] theorem takeBlanks_append_dropBlanks (s : Text) : takeBlanks s ++ dropBlanks s = s :=
  List.takeWhile_append_dropWhile

/-- What is left after the leading blanks does not start with one. -/
theorem isBlank_of_dropBlanks_eq_cons {s r : Text} {c : Char} (h : dropBlanks s = c :: r) :
    isBlank c = false := by
  have hh := List.head?_dropWhile_not isBlank s
  rw [show s.dropWhile isBlank = c :: r from h] at hh
  simpa using hh

/-- The text without the blanks at its end. -/
def dropEndBlanks (s : Text) : Text :=
  (dropBlanks s.reverse).reverse

/-- The text without the blanks at both ends. -/
def trim (s : Text) : Text :=
  dropEndBlanks (dropBlanks s)

/-- The text after a run of at least one blank. -/
def afterBlanks? : Text → Option Text
  | [] => none
  | c :: s => if isBlank c then some (dropBlanks s) else none

/-- Some text reached by passing one or more of the leading blanks satisfies `p`. -/
def anyAfterBlanks (p : Text → Bool) : Text → Bool
  | [] => false
  | c :: s => isBlank c && (p s || anyAfterBlanks p s)

end LuaReveal.Text
