import LuaReveal.Text.Blank
import LuaReveal.Text.WordRanges

/-!
# LuaReveal.Text.Word

Word characters, the borders between words and other text, and the words of a
text: its longest runs of word characters.
-/

namespace LuaReveal.Text

/-! ## Word characters -/

/-- A word character is a letter, a mark, a decimal digit, a connecting
punctuation such as `_`, or a joiner. -/
def isWord (c : Char) : Bool :=
  if c.toNat < 0x80 then isAsciiLetter c || isAsciiDigit c || c == '_'
  else inRanges wordRanges c

/-- There is a character and it is a word character. -/
def isWordAt (c : Option Char) : Bool :=
  c.any isWord

@[simp] theorem isWordAt_none : isWordAt none = false := rfl

@[simp] theorem isWordAt_some (c : Char) : isWordAt (some c) = isWord c := rfl

/-- Between the character before a place and the text from there on lies a
border of a word: one of the two sides is a word character and the other is
not. -/
def isBorder (prev : Option Char) (s : Text) : Bool :=
  isWordAt prev != isWordAt s.head?

/-! ## Words -/

/-- The words of a text that starts after the character `prev`; a run of word
characters that goes on from `prev` is no word of its own. -/
def wordsAfter (prev : Option Char) : Text → List Text
  | [] => []
  | c :: s =>
    if isWord c && !isWordAt prev then
      (c :: s.takeWhile isWord) :: wordsAfter (some c) s
    else
      wordsAfter (some c) s

/-- The words of a text, its longest runs of word characters, in order. -/
def words (s : Text) : List Text :=
  wordsAfter none s

/-- The run of word characters that the text starts with, possibly empty. -/
def leadingWord (s : Text) : Text :=
  s.takeWhile isWord

/-! ## Identifiers -/

/-- An identifier starts with a letter of the 26 or an underscore. -/
def isIdentifierStart (c : Char) : Bool :=
  isAsciiLetter c || c == '_'

/-- The identifier that the text starts with, and the text after it. -/
def readIdentifier? : Text → Option (Text × Text)
  | [] => none
  | c :: s =>
    if isIdentifierStart c then some (c :: s.takeWhile isWord, s.dropWhile isWord) else none

/-- An identifier and what follows it make up the text. -/
theorem append_of_readIdentifier? {s w rest : Text} (h : readIdentifier? s = some (w, rest)) :
    w ++ rest = s := by
  cases s with
  | nil => simp [readIdentifier?] at h
  | cons c s =>
    simp only [readIdentifier?] at h
    split at h
    · obtain ⟨rfl, rfl⟩ := by simpa using h
      simp [List.takeWhile_append_dropWhile]
    · simp at h

/-- An identifier is not empty. -/
theorem ne_nil_of_readIdentifier? {s w rest : Text} (h : readIdentifier? s = some (w, rest)) :
    w ≠ [] := by
  cases s with
  | nil => simp [readIdentifier?] at h
  | cons c s =>
    simp only [readIdentifier?] at h
    split at h
    · obtain ⟨rfl, rfl⟩ := by simpa using h
      simp
    · simp at h

/-! ## Keywords -/

/-- The text after the word `w`, if the text starts with `w` and no word runs
into it from the left. What may follow `w` is for the caller to say. -/
def afterKeyword? (w : Text) (prev : Option Char) (s : Text) : Option Text :=
  if isWordAt prev then none else after? w s

end LuaReveal.Text
