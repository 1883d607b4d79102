import LuaReveal.Proofs.Text.Class
import LuaReveal.Text.Decimal
import Mathlib.Data.Nat.Digits.Defs
import Mathlib.Tactic.Ring

/-!
# LuaReveal.Proofs.Text.Decimal

Numbers and their spellings in base ten, with or without leading zeros
(`Spells`): `readNat?` reads exactly these (`readNat?_eq_some_iff`).  Digits of any
script are no blanks, and no identifier starts with one.
-/

namespace LuaReveal.Text

/-! ## Digits and other characters -/

section Class

variable {c : Char}

/-- A blank is no digit. -/
theorem isDigit_of_isBlank (h : isBlank c = true) : isDigit c = false := by
  have hp : ∀ n ∈ blankRanges.flatMap fun r => List.range' r.1 (r.2 + 1 - r.1),
      isDigit (Char.ofNat n) = false := by
    decide +kernel
  have hc := hp _ (toNat_mem_of_inRanges h)
  rwa [Char.ofNat_toNat] at hc

/-- A digit is no blank. -/
theorem isBlank_of_isDigit (h : isDigit c = true) : isBlank c = false := by
  cases hb : isBlank c with
  | false => rfl
  | true => exact absurd h (by simp [isDigit_of_isBlank hb])

/-- No identifier starts with a digit. -/
theorem isDigit_of_isIdentifierStart (h : isIdentifierStart c = true) : isDigit c = false := by
  have hp : ∀ n < 0x80, isIdentifierStart (Char.ofNat n) = true →
      isDigit (Char.ofNat n) = false := by
    decide +kernel
  have hc := hp c.toNat (toNat_lt_of_isIdentifierStart h)
  rw [Char.ofNat_toNat] at hc
  exact hc h

/-- The digits `0` to `9` are digits. -/
theorem isDigit_of_isAsciiDigit (h : isAsciiDigit c = true) : isDigit c = true := by
  have hl : c.toNat < 0x80 := by
    simp only [isAsciiDigit, Bool.and_eq_true, decide_eq_true_eq] at h
    exact Nat.lt_of_le_of_lt (show c.toNat ≤ '9'.toNat from h.2) (by decide)
  simp [isDigit, hl, h]

end Class

/-! ## Spellings -/

/-- The number that one of the digits `0` to `9` stands for. -/
def digitValue (c : Char) : Nat :=
  c.toNat - 48

/-- The text spells the number `k` with the digits `0` to `9`, the last one being the
digit of the ones. -/
structure Spells (digits : Text) (k : Nat) : Prop where
  ne_nil : digits ≠ []
  isAsciiDigit_of_mem : ∀ c ∈ digits, isAsciiDigit c = true
  ofDigits_eq : Nat.ofDigits 10 (digits.reverse.map digitValue) = k

section Read

variable {s : Text} {k n : Nat}

theorem readDigits?_eq_some_iff :
    readDigits? n s = some k ↔
      (∀ c ∈ s, isAsciiDigit c = true) ∧
        10 ^ s.length * n + Nat.ofDigits 10 (s.reverse.map digitValue) = k := by
  induction s generalizing n with
  | nil => simp [readDigits?]
  | cons c s ih =>
      have hv : 10 ^ s.length * (10 * n + (c.toNat - 48)) +
            Nat.ofDigits 10 (s.reverse.map digitValue) =
          10 ^ (s.length + 1) * n +
            Nat.ofDigits 10 ((c :: s).reverse.map digitValue) := by
        simp only [List.reverse_cons, List.map_append, List.map_cons, List.map_nil,
          Nat.ofDigits_append, List.length_map, List.length_reverse, Nat.ofDigits_singleton,
          digitValue]
        ring
      by_cases hc : isAsciiDigit c = true
      · simp only [readDigits?, hc, if_true, ih, hv, List.length_cons, List.forall_mem_cons,
          true_and]
      · simp [readDigits?, hc]

/-- A number is read from a text exactly if the text spells it. -/
theorem readNat?_eq_some_iff : readNat? s = some k ↔ Spells s k := by
  cases s with
  | nil =>
      constructor
      · intro h
        contradiction
      · intro h
        exact absurd rfl h.ne_nil
  | cons c s =>
      rw [readNat?, List.isEmpty_cons, if_neg Bool.false_ne_true, readDigits?_eq_some_iff,
        Nat.mul_zero, Nat.zero_add]
      exact ⟨fun h => ⟨by simp, h.1, h.2⟩, fun h => ⟨h.isAsciiDigit_of_mem, h.ofDigits_eq⟩⟩

/-- A written number is spelled. -/
theorem spells_ofNat (k : Nat) : Spells (ofNat k) k :=
  readNat?_eq_some_iff.mp (readNat?_ofNat k)

end Read

end LuaReveal.Text
