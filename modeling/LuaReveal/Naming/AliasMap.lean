import LuaReveal.Naming.Alias

/-!
# LuaReveal.Naming.AliasMap

The letters that have an alias, in the order in which the aliases were first
asked for, with an index by which the alias of a letter is found.
-/

namespace LuaReveal.Naming

/-- Letters with their aliases, and where to find them. -/
structure AliasMap where
  /-- The letters with their aliases, in the order of the first requests. -/
  pairs : List (Char × Text)
  /-- The positions of the pairs by their letters; a newer entry hides an older one. -/
  index : List (Char × Nat)
  deriving DecidableEq

namespace AliasMap

/-- No letter has an alias. -/
def empty : AliasMap := ⟨[], []⟩

/-- The number of letters that have an alias. -/
def size (m : AliasMap) : Nat :=
  m.pairs.length

/-- The letters that have an alias. -/
def letters (m : AliasMap) : List Char :=
  m.pairs.map Prod.fst

/-- The aliases of the letters. -/
def aliases (m : AliasMap) : List Text :=
  m.pairs.map Prod.snd

/-- The position that the index has for a letter. -/
def position? (m : AliasMap) (letter : Char) : Option Nat :=
  m.index.lookup letter

/-- The alias that a letter has: that of the pair at its position. -/
def get? (m : AliasMap) (letter : Char) : Option Text :=
  (m.position? letter).bind fun i => m.pairs[i]?.map Prod.snd

/-- The alias of a letter: the one that it has, or a fresh one. -/
def aliasFor (m : AliasMap) (letter : Char) : Text :=
  (m.get? letter).getD (freshAlias m.aliases letter)

/-- The map in which the letter has its alias. -/
def add (m : AliasMap) (letter : Char) : AliasMap :=
  match m.get? letter with
  | some _ => m
  | none =>
    ⟨m.pairs ++ [(letter, freshAlias m.aliases letter)], (letter, m.pairs.length) :: m.index⟩

/-- The map in which all the letters have their aliases. -/
def addAll (m : AliasMap) (letters : List Char) : AliasMap :=
  letters.foldl add m

end AliasMap

end LuaReveal.Naming
