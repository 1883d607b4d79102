import LuaReveal.Text.Basic

/-!
# LuaReveal.Escape.Mnemonic

The mnemonic escapes: a backslash and one more character that stand for a line
feed, a tab, a carriage return, one of the two quotes or a backslash.
-/

namespace LuaReveal.Escape

/-- The character that a backslash and `c` stand for. -/
def mnemonic? (c : Char) : Option Char :=
  match c with
  | 'n' => some '\n'
  | 't' => some '\t'
  | 'r' => some '\r'
  | '"' => some '"'
  | '\'' => some '\''
  | '\\' => some '\\'
  | _ => none

/-- The text with the mnemonic escapes replaced by what they stand for. Other
backslashes stay. -/
def resolve : Text → Text
  | [] => []
  | '\\' :: c :: s =>
    match mnemonic? c with
    | some d => d :: resolve s
    | none => '\\' :: resolve (c :: s)
  | c :: s => c :: resolve s

end LuaReveal.Escape
