import LuaReveal.Naming.AliasMap
import LuaReveal.Text.Scan
import LuaReveal.Text.Word

/-!
# LuaReveal.Naming.Renaming

Names of one letter that are declared by `local x =` or `function x(` get their
aliases wherever they stand alone, in whatever scope.
-/

namespace LuaReveal.Naming

open Text (dropBlanks afterBlanks? afterKeyword? isAsciiLetter isWordAt)

/-! ## Declared letters -/

/-- The letter declared at a place by the keyword, blanks, the letter, and the
sign with blanks before it. -/
def declaredLetter? (keyword : Text) (sign : Char) (prev : Option Char) (s : Text) :
    Option Char := do
  let s ← afterKeyword? keyword prev s
  match ← afterBlanks? s with
  | [] => none
  | c :: s => if isAsciiLetter c ∧ (dropBlanks s).head? = some sign then some c else none

/-- The letters that a source text declares by `local x =`, each once, in the
order of their first declarations. -/
def localLetters (source : Text) : List Char :=
  (Text.occurrences (declaredLetter? "local".toList '=') source).eraseDups

/-- The letters that a source text declares by `function x(`, each once, in the
order of their first declarations. -/
def functionLetters (source : Text) : List Char :=
  (Text.occurrences (declaredLetter? "function".toList '(') source).eraseDups

/-! ## Substitution -/

/-- A character between `prev` and the text `next` stands alone: no word runs
into it or goes on from it, and no backslash makes it part of an escape. -/
def standsAlone (prev : Option Char) (next : Text) : Bool :=
  !isWordAt prev && prev != some '\\' && !isWordAt next.head?

/-- The text, which starts after the character `prev`, with the characters that
stand alone replaced as `f` says. -/
def substituteAfter (f : Char → Option Text) (prev : Option Char) : Text → Text
  | [] => []
  | c :: s =>
    (if standsAlone prev s then (f c).getD [c] else [c]) ++ substituteAfter f (some c) s

/-- The text with the characters that stand alone replaced as `f` says. -/
def substitute (f : Char → Option Text) (s : Text) : Text :=
  substituteAfter f none s

/-- The text with one letter replaced wherever it stands alone. -/
def replaceLetter (letter : Char) (word : Text) (s : Text) : Text :=
  substitute (fun c => if c = letter then some word else none) s

/-! ## Renaming -/

/-- A source text while its letters are renamed: the text so far, the aliases,
and the letters that were renamed, each with its alias. -/
structure Renaming where
  code : Text
  aliases : AliasMap
  renamed : List (Char × Text)
  deriving DecidableEq

/-- Renames one letter. -/
def Renaming.step (r : Renaming) (letter : Char) : Renaming where
  code := replaceLetter letter (r.aliases.aliasFor letter) r.code
  aliases := r.aliases.add letter
  renamed := r.renamed ++ [(letter, r.aliases.aliasFor letter)]

/-- Renames the letters that the source text declares as locals, and then those
that the text so far declares as functions. -/
def rename (m : AliasMap) (source : Text) : Renaming :=
  let locals := (localLetters source).foldl Renaming.step ⟨source, m, []⟩
  (functionLetters locals.code).foldl Renaming.step locals

end LuaReveal.Naming
