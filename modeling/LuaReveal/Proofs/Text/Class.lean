import LuaReveal.Text.Word

/-!
# LuaReveal.Proofs.Text.Class

How the classes of characters lie to one another: letters are word characters,
and blanks are none.  What is read by them from the front of a text, its blanks
and an identifier, is made of them.
-/

namespace LuaReveal.Text

/-- A character in one of the ranges is one of the code points that they list. -/
theorem toNat_mem_of_inRanges {rs : List (Nat × Nat)} {c : Char} (h : inRanges rs c = true) :
    c.toNat ∈ rs.flatMap fun r => List.range' r.1 (r.2 + 1 - r.1) := by
  obtain ⟨r, hr, h₁, h₂⟩ := inRanges_eq_true_iff.mp h
  refine List.mem_flatMap.mpr ⟨r, hr, ?_⟩
  rw [List.mem_range'_1]
  omega

/-- A blank is no word character. -/
theorem isWord_of_isBlank {c : Char} (h : isBlank c = true) : isWord c = false := by
  have hp : ∀ n ∈ blankRanges.flatMap fun r => List.range' r.1 (r.2 + 1 - r.1),
      isWord (Char.ofNat n) = false := by
    decide +kernel
  have hc := hp _ (toNat_mem_of_inRanges h)
  rwa [Char.ofNat_toNat] at hc

/-- A word character is no blank. -/
theorem isBlank_of_isWord {c : Char} (h : isWord c = true) : isBlank c = false := by
  cases hb : isBlank c with
  | false => rfl
  | true => exact absurd h (by simp [isWord_of_isBlank hb])

/-- The 26 letters are below U+0080. -/
theorem toNat_lt_of_isAsciiLetter {c : Char} (h : isAsciiLetter c = true) : c.toNat < 0x80 := by
  simp only [isAsciiLetter, Bool.or_eq_true, Bool.and_eq_true, decide_eq_true_eq] at h
  cases h with
  | inl h => exact Nat.lt_of_le_of_lt (show c.toNat ≤ 'z'.toNat from h.2) (by decide)
  | inr h => exact Nat.lt_of_le_of_lt (show c.toNat ≤ 'Z'.toNat from h.2) (by decide)

/-- A letter is a word character. -/
theorem isWord_of_isAsciiLetter {c : Char} (h : isAsciiLetter c = true) : isWord c = true := by
  simp [isWord, toNat_lt_of_isAsciiLetter h, h]

/-- An identifier starts with a character below U+0080. -/
theorem toNat_lt_of_isIdentifierStart {c : Char} (h : isIdentifierStart c = true) :
    c.toNat < 0x80 := by
  cases Bool.or_eq_true_iff.mp h with
  | inl hl => exact toNat_lt_of_isAsciiLetter hl
  | inr hu =>
      rw [beq_iff_eq.mp hu]
      decide

/-- An identifier starts with a word character. -/
theorem isWord_of_isIdentifierStart {c : Char} (h : isIdentifierStart c = true) :
    isWord c = true := by
  cases Bool.or_eq_true_iff.mp h with
  | inl hl => exact isWord_of_isAsciiLetter hl
  | inr hu =>
      rw [beq_iff_eq.mp hu]
      decide

/-! ## Leading blanks -/

/-- There need be no blanks. -/
theorem isBlank_of_mem_nil : ∀ c ∈ ([] : Text), isBlank c = true := by
  simp

theorem dropBlanks_cons_of_isBlank {c : Char} (h : isBlank c = true) (s : Text) :
    dropBlanks (c :: s) = dropBlanks s := by
  simp [dropBlanks, h]

theorem dropBlanks_cons_of_not {c : Char} (h : isBlank c = false) (s : Text) :
    dropBlanks (c :: s) = c :: s := by
  simp [dropBlanks, h]

/-- Blanks before a text are dropped with those that it starts with. -/
theorem dropBlanks_append {b : Text} (hb : ∀ c ∈ b, isBlank c = true) (s : Text) :
    dropBlanks (b ++ s) = dropBlanks s :=
  List.dropWhile_append_of_pos hb

theorem takeWhile_append_cons {p : Char → Bool} {x s : Text} {c : Char}
    (hx : ∀ d ∈ x, p d = true) (hc : p c = false) : (x ++ c :: s).takeWhile p = x := by
  rw [List.takeWhile_append_of_pos hx, List.takeWhile_cons_of_neg (by simp [hc]), List.append_nil]

theorem dropWhile_append_cons {p : Char → Bool} {x s : Text} {c : Char}
    (hx : ∀ d ∈ x, p d = true) (hc : p c = false) : (x ++ c :: s).dropWhile p = c :: s := by
  rw [List.dropWhile_append_of_pos hx, List.dropWhile_cons_of_neg (by simp [hc])]

/-- Blanks in front of another character are dropped. -/
theorem dropBlanks_append_cons {b s : Text} {c : Char} (hb : ∀ d ∈ b, isBlank d = true)
    (hc : isBlank c = false) : dropBlanks (b ++ c :: s) = c :: s :=
  dropWhile_append_cons hb hc

theorem isBlank_of_mem_takeBlanks {s : Text} {c : Char} (h : c ∈ takeBlanks s) :
    isBlank c = true :=
  List.all_eq_true.mp List.all_takeWhile c h

/-! ## Parts that are read -/

section Read

variable {s rest : Text}

/-- Blanks that are read are dropped from the front of the text. -/
theorem eq_of_afterBlanks? (h : afterBlanks? s = some rest) :
    ∃ b, b ≠ [] ∧ (∀ c ∈ b, isBlank c = true) ∧ s = b ++ rest := by
  cases s with
  | nil => contradiction
  | cons c s =>
      by_cases hc : isBlank c = true
      · rw [afterBlanks?, if_pos hc] at h
        obtain rfl := Option.some.inj h
        refine ⟨c :: takeBlanks s, by simp, ?_, by simp⟩
        intro d hd
        rcases List.mem_cons.mp hd with rfl | hd
        · exact hc
        · exact isBlank_of_mem_takeBlanks hd
      · rw [afterBlanks?, if_neg hc] at h
        contradiction

/-- One or more blanks are read up to the first character behind them. -/
theorem afterBlanks?_append {b : Text} {c : Char} (hn : b ≠ []) (hb : ∀ d ∈ b, isBlank d = true)
    (hc : isBlank c = false) : afterBlanks? (b ++ c :: s) = some (c :: s) := by
  cases b with
  | nil => exact absurd rfl hn
  | cons d b =>
      have ht : ∀ e ∈ b, isBlank e = true := fun e he => hb e (List.mem_cons_of_mem d he)
      simp only [List.cons_append, afterBlanks?, hb d List.mem_cons_self, if_true]
      rw [dropBlanks_append ht, dropBlanks_cons_of_not hc]

/-- An identifier is made of word characters. -/
theorem isWord_of_mem_identifier {w : Text} (h : readIdentifier? s = some (w, rest)) :
    ∀ c ∈ w, isWord c = true := by
  cases s with
  | nil => contradiction
  | cons a s =>
      by_cases ha : isIdentifierStart a = true
      · rw [readIdentifier?, if_pos ha] at h
        obtain ⟨rfl, rfl⟩ := Prod.mk.inj (Option.some.inj h)
        intro c hc
        rcases List.mem_cons.mp hc with rfl | hc
        · exact isWord_of_isIdentifierStart ha
        · exact List.all_eq_true.mp List.all_takeWhile c hc
      · rw [readIdentifier?, if_neg ha] at h
        contradiction

end Read

end LuaReveal.Text
