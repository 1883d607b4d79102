import LuaReveal.Text.Basic

/-!
# LuaReveal.Text.Column

Texts set in a column of a given width. Widths count characters; a text wider
than its column is left as it is.
-/

namespace LuaReveal.Text

/-- `n` spaces. -/
def spaces (n : Nat) : Text :=
  List.replicate n ' '

/-- The text at the left of a column of `width` characters. -/
def alignLeft (width : Nat) (s : Text) : Text :=
  s ++ spaces (width - s.length)

/-- The text at the right of a column of `width` characters. -/
def alignRight (width : Nat) (s : Text) : Text :=
  spaces (width - s.length) ++ s

/-- The text in the middle of a column of `width` characters; of an odd number
of spaces the right side has one more. -/
def center (width : Nat) (s : Text) : Text :=
  spaces ((width - s.length) / 2) ++ s ++ spaces (width - s.length - (width - s.length) / 2)

end LuaReveal.Text
