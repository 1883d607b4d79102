import LuaReveal.Text.Basic

/-!
# LuaReveal.Escape.Policy

What becomes of an octal escape whose code is no printable character.
-/

namespace LuaReveal.Escape

/-- What becomes of an octal escape whose code is not printable. -/
inductive Policy where
  /-- The escape stays as it is written. -/
  | preserve
  /-- The octal digits in brackets take its place, as in `[001]`. -/
  | bracket
  /-- The escape is left out, save that tab, line feed and carriage return stay. -/
  | filter
  deriving DecidableEq

namespace Policy

/-- The policy of a run that names none. -/
def standard : Policy := .preserve

/-- The word that names a policy. -/
def name : Policy → Text
  | preserve => "preserve".toList
  | bracket => "bracket".toList
  | filter => "filter".toList

/-- A word that names no policy, in small letters. -/
structure Unknown where
  word : Text
  deriving DecidableEq

/-- The wording of the refusal of a word. -/
def Unknown.message (u : Unknown) : Text :=
  "unknown escape policy '".toList ++ u.word
    ++ "' (expected preserve, bracket or filter)".toList

/-- The policy that a word names; capitals among the 26 letters do not matter. -/
def ofWord (word : Text) : Except Unknown Policy :=
  let word := word.map Text.toAsciiLower
  if word = preserve.name then .ok preserve
  else if word = bracket.name then .ok bracket
  else if word = filter.name then .ok filter
  else .error ⟨word⟩

/-- The name of a policy names it. -/
theorem ofWord_name (p : Policy) : ofWord p.name = .ok p := by
  cases p <;> rfl

end Policy

end LuaReveal.Escape
