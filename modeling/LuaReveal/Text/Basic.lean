/-!
# LuaReveal.Text.Basic

Texts as lists of characters, so that every pass is a function by recursion on
its input, and character classes given by ranges of code points.
-/

namespace LuaReveal

/-- A text is its list of characters. -/
abbrev Text := List Char

namespace Text

/-! ## Character classes -/

/-- The code point of `c` lies in one of the closed ranges `rs`. -/
def inRanges (rs : List (Nat × Nat)) (c : Char) : Bool :=
  rs.any fun r => r.1 ≤ c.toNat && c.toNat ≤ r.2

theorem inRanges_eq_true_iff {rs : List (Nat × Nat)} {c : Char} :
    inRanges rs c = true ↔ ∃ r ∈ rs, r.1 ≤ c.toNat ∧ c.toNat ≤ r.2 := by
  simp [inRanges]

/-- The 26 letters in two cases. -/
def isAsciiLetter (c : Char) : Bool :=
  ('a' ≤ c && c ≤ 'z') || ('A' ≤ c && c ≤ 'Z')

/-- The ten digits `0` to `9`. -/
def isAsciiDigit (c : Char) : Bool :=
  '0' ≤ c && c ≤ '9'

/-- A capital among the 26 letters becomes small; every other character stays. -/
def toAsciiLower (c : Char) : Char :=
  if 'A' ≤ c && c ≤ 'Z' then Char.ofNat (c.toNat + 32) else c

/-! ## Parts of a text -/

/-- The text after `w`, if the text starts with `w`. -/
def after? : (w : Text) → Text → Option Text
  | [], s => some s
  | _ :: _, [] => none
  | a :: w, c :: s => if a = c then after? w s else none

/-- A text starts with `w` exactly if it is `w` and then something. -/
theorem after?_eq_some_iff {w s rest : Text} : after? w s = some rest ↔ s = w ++ rest := by
  induction w generalizing s with
  | nil => simp [after?]
  | cons a w ih =>
    cases s with
    | nil => simp [after?]
    | cons c s =>
      by_cases h : a = c
      · simp [after?, h, ih]
      · simp [after?, h, Ne.symm h]

@[simp] theorem after?_append (w s : Text) : after? w (w ++ s) = some s :=
  after?_eq_some_iff.mpr rfl

/-- The text `w` occurs somewhere in the text. -/
def contains (w : Text) : Text → Bool
  | [] => w.isEmpty
  | c :: s => (after? w (c :: s)).isSome || contains w s

/-- The order of texts by the code points of their characters, where a text comes
after its beginnings. -/
def atMost : Text → Text → Bool
  | [], _ => true
  | _ :: _, [] => false
  | a :: s, b :: t => a.toNat < b.toNat || (a == b && atMost s t)

/-- The text written `n` times in a row. An empty text is not counted out, so that
its number may be of any size. -/
def repeated (n : Nat) (s : Text) : Text :=
  if s.isEmpty then [] else (List.replicate n s).flatten

theorem repeated_eq_flatten_replicate (n : Nat) (s : Text) :
    repeated n s = (List.replicate n s).flatten := by
  cases s <;> simp [repeated]

end Text

end LuaReveal
