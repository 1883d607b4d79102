import LuaReveal.Text.Basic

/-!
# LuaReveal.Text.Decimal

Decimal digits of every script, and natural numbers written with the ten digits
`0` to `9`.
-/

namespace LuaReveal.Text

/-- Closed ranges of the decimal digits above U+007F, in rising order. -/
def digitRanges : List (Nat × Nat) :=
  [(0x660, 0x669), (0x6F0, 0x6F9), (0x7C0, 0x7C9), (0x966, 0x96F), (0x9E6, 0x9EF), (0xA66, 0xA6F),
   (0xAE6, 0xAEF), (0xB66, 0xB6F), (0xBE6, 0xBEF), (0xC66, 0xC6F), (0xCE6, 0xCEF), (0xD66, 0xD6F),
   (0xDE6, 0xDEF), (0xE50, 0xE59), (0xED0, 0xED9), (0xF20, 0xF29), (0x1040, 0x1049),
   (0x1090, 0x1099), (0x17E0, 0x17E9), (0x1810, 0x1819), (0x1946, 0x194F), (0x19D0, 0x19D9),
   (0x1A80, 0x1A89), (0x1A90, 0x1A99), (0x1B50, 0x1B59), (0x1BB0, 0x1BB9), (0x1C40, 0x1C49),
   (0x1C50, 0x1C59), (0xA620, 0xA629), (0xA8D0, 0xA8D9), (0xA900, 0xA909), (0xA9D0, 0xA9D9),
   (0xA9F0, 0xA9F9), (0xAA50, 0xAA59), (0xABF0, 0xABF9), (0xFF10, 0xFF19), (0x104A0, 0x104A9),
   (0x10D30, 0x10D39), (0x10D40, 0x10D49), (0x11066, 0x1106F), (0x110F0, 0x110F9),
   (0x11136, 0x1113F), (0x111D0, 0x111D9), (0x112F0, 0x112F9), (0x11450, 0x11459),
   (0x114D0, 0x114D9), (0x11650, 0x11659), (0x116C0, 0x116C9), (0x116D0, 0x116E3),
   (0x11730, 0x11739), (0x118E0, 0x118E9), (0x11950, 0x11959), (0x11BF0, 0x11BF9),
   (0x11C50, 0x11C59), (0x11D50, 0x11D59), (0x11DA0, 0x11DA9), (0x11F50, 0x11F59),
   (0x16130, 0x16139), (0x16A60, 0x16A69), (0x16AC0, 0x16AC9), (0x16B50, 0x16B59),
   (0x16D70, 0x16D79), (0x1CCF0, 0x1CCF9), (0x1D7CE, 0x1D7FF), (0x1E140, 0x1E149),
   (0x1E2F0, 0x1E2F9), (0x1E4F0, 0x1E4F9), (0x1E5F1, 0x1E5FA), (0x1E950, 0x1E959),
   (0x1FBF0, 0x1FBF9)]

/-- A decimal digit of any script. -/
def isDigit (c : Char) : Bool :=
  if c.toNat < 0x80 then isAsciiDigit c else inRanges digitRanges c

/-! ## Reading and writing numbers -/

/-- The number written by the digits, read from the left on top of `n`; only
the digits `0` to `9` have a value. -/
def readDigits? (n : Nat) : Text → Option Nat
  | [] => some n
  | c :: s => if isAsciiDigit c then readDigits? (10 * n + (c.toNat - 48)) s else none

/-- The number that the text writes with one or more of the digits `0` to `9`. -/
def readNat? (s : Text) : Option Nat :=
  if s.isEmpty then none else readDigits? 0 s

/-- The digits of `n` without leading zeros. -/
def ofNat (n : Nat) : Text :=
  if n < 10 then [Char.ofNat (48 + n)] else ofNat (n / 10) ++ [Char.ofNat (48 + n % 10)]

/-- Reading goes on over an appended digit. -/
theorem readDigits?_append (n : Nat) (s t : Text) :
    readDigits? n (s ++ t) = (readDigits? n s).bind (readDigits? · t) := by
  induction s generalizing n with
  | nil => rfl
  | cons c s ih =>
    simp only [List.cons_append, readDigits?]
    split
    · exact ih _
    · rfl

private theorem readDigits?_digit (m n : Nat) (h : n < 10) :
    readDigits? m [Char.ofNat (48 + n)] = some (10 * m + n) := by
  have : ∀ n : Fin 10, isAsciiDigit (Char.ofNat (48 + n)) = true ∧
      (Char.ofNat (48 + n)).toNat - 48 = n := by decide
  obtain ⟨h₁, h₂⟩ := this ⟨n, h⟩
  simp only [readDigits?, h₁, if_true]
  rw [h₂]

/-- The digits of a number read back as the number. -/
theorem readDigits?_ofNat (n : Nat) : readDigits? 0 (ofNat n) = some n := by
  fun_induction ofNat n with
  | case1 n h => simpa using readDigits?_digit 0 n h
  | case2 n h ih =>
    rw [readDigits?_append, ih, Option.bind_some, readDigits?_digit _ _ (Nat.mod_lt _ (by decide))]
    congr 1
    omega

theorem ofNat_ne_nil (n : Nat) : ofNat n ≠ [] := by
  unfold ofNat
  split <;> simp

/-- A written number reads back as itself. -/
@[simp] theorem readNat?_ofNat (n : Nat) : readNat? (ofNat n) = some n := by
  simp [readNat?, ofNat_ne_nil, readDigits?_ofNat]

/-- Different numbers are written differently. -/
theorem ofNat_injective {m n : Nat} (h : ofNat m = ofNat n) : m = n := by
  have := readDigits?_ofNat m
  rw [h, readDigits?_ofNat] at this
  simpa using this.symm

end LuaReveal.Text
