import LuaReveal.Text.Utf8

/-!
# LuaReveal.Proofs.Text.Utf8

Reading UTF-8 accepts exactly what writing it produces (`decode_eq_ok_iff`), so
bytes are refused exactly if they are those of no text (`exists_fault_iff`).
Between reading and writing stand the well-formed characters as a table of their
bytes (`Form`): what is read is in the table, and what is written is, too.
-/

namespace LuaReveal.Text.Utf8

/-! ## Numbers of characters and bytes -/

/-- The code point of the character with a number that is one. -/
theorem toNat_ofNat {n : Nat} (h : n.isValidChar) : (Char.ofNat n).toNat = n := by
  unfold Char.ofNat
  rw [dif_pos h]
  rfl

/-- Code points lie below the surrogates or above them. -/
theorem isValidChar_toNat (c : Char) :
    c.toNat < 0xD800 ∨ (0xDFFF < c.toNat ∧ c.toNat < 0x110000) :=
  c.valid

theorem ofNat_eq_of_eq_toNat {n : Nat} {b : UInt8} (h : n = b.toNat) : UInt8.ofNat n = b := by
  rw [h, UInt8.ofNat_toNat]

theorem toNat_continuation (n : Nat) : (continuation n).toNat = 0x80 + n % 0x40 := by
  have h : 0x80 + n % 0x40 < 2 ^ 8 := by omega
  rw [continuation, UInt8.toNat_ofNat', Nat.mod_eq_of_lt h]

/-- The byte is not the first of its character: `10` and six bits. -/
def Tail (b : UInt8) : Prop :=
  0x80 ≤ b.toNat ∧ b.toNat ≤ 0xBF

theorem tail_continuation (n : Nat) : Tail (continuation n) := by
  rw [Tail, toNat_continuation]
  omega

/-- A byte that is not the first of its character is made of its six bits. -/
theorem continuation_eq {n : Nat} {b : UInt8} (hb : Tail b) (h : n % 0x40 = b.toNat % 0x40) :
    continuation n = b := by
  obtain ⟨h₁, h₂⟩ := hb
  exact ofNat_eq_of_eq_toNat (by omega)

/-! ## Well-formed characters -/

/-- The second byte of a character of three or four bytes, by its first byte: the
narrowed ranges leave out the overlong forms, the surrogates and what lies above
U+10FFFF. -/
structure Second (b b₁ : UInt8) : Prop where
  isTail : Tail b₁
  of_E0 : b.toNat = 0xE0 → 0xA0 ≤ b₁.toNat
  of_ED : b.toNat = 0xED → b₁.toNat ≤ 0x9F
  of_F0 : b.toNat = 0xF0 → 0x90 ≤ b₁.toNat
  of_F4 : b.toNat = 0xF4 → b₁.toNat ≤ 0x8F

/-- The bytes of a character, the first and the others, and its code point. -/
inductive Form (n : Nat) : UInt8 → List UInt8 → Prop
  | one {b : UInt8} (h : b.toNat < 0x80) (hn : b.toNat = n) : Form n b []
  | two {b b₁ : UInt8} (h : 0xC2 ≤ b.toNat) (h' : b.toNat < 0xE0) (h₁ : Tail b₁)
      (hn : b.toNat % 0x20 * 0x40 + b₁.toNat % 0x40 = n) : Form n b [b₁]
  | three {b b₁ b₂ : UInt8} (h : 0xE0 ≤ b.toNat) (h' : b.toNat < 0xF0) (h₁ : Second b b₁)
      (h₂ : Tail b₂)
      (hn : (b.toNat % 0x10 * 0x40 + b₁.toNat % 0x40) * 0x40 + b₂.toNat % 0x40 = n) :
      Form n b [b₁, b₂]
  | four {b b₁ b₂ b₃ : UInt8} (h : 0xF0 ≤ b.toNat) (h' : b.toNat < 0xF5) (h₁ : Second b b₁)
      (h₂ : Tail b₂) (h₃ : Tail b₃)
      (hn : ((b.toNat % 0x08 * 0x40 + b₁.toNat % 0x40) * 0x40 + b₂.toNat % 0x40) * 0x40
        + b₃.toNat % 0x40 = n) :
      Form n b [b₁, b₂, b₃]

/-! ## Reading -/

section Read

variable {start more seen low high n : Nat} {b : UInt8} {bs rest : List UInt8} {c : Char}

/-- One more byte of a character is read. -/
theorem readMore_succ_eq_ok_iff :
    readMore start (more + 1) seen low high n bs = .ok (c, rest) ↔
      ∃ b bs', bs = b :: bs' ∧ (low ≤ b.toNat ∧ b.toNat ≤ high) ∧
        readMore start more (seen + 1) 0x80 0xBF (n * 0x40 + b.toNat % 0x40) bs' =
          .ok (c, rest) := by
  cases bs with
  | nil => simp [readMore]
  | cons b bs =>
      rw [readMore]
      constructor
      · intro h
        split at h
        · next hb => exact ⟨b, bs, rfl, hb, h⟩
        · contradiction
      · rintro ⟨_, _, he, hb, h⟩
        obtain ⟨rfl, rfl⟩ := List.cons.inj he
        rw [if_pos hb, h]

theorem readMore_zero_eq_ok_iff :
    readMore start 0 seen low high n bs = .ok (c, rest) ↔ c = Char.ofNat n ∧ bs = rest := by
  simp [readMore, eq_comm]

/-- The range that `lead` gives for the second byte of a character of three
bytes. -/
theorem lead_three (h : 0xE0 ≤ b.toNat) (h' : b.toNat < 0xF0) :
    ∃ low high, lead b = .multi 2 low high ∧
      ∀ b₁ : UInt8, low ≤ b₁.toNat ∧ b₁.toNat ≤ high ↔ Second b b₁ := by
  have hs (b₁ : UInt8) : Second b b₁ ↔ Tail b₁ ∧ (b.toNat = 0xE0 → 0xA0 ≤ b₁.toNat) ∧
      (b.toNat = 0xED → b₁.toNat ≤ 0x9F) :=
    ⟨fun s => ⟨s.isTail, s.of_E0, s.of_ED⟩,
      fun ⟨ht, h₁, h₂⟩ => ⟨ht, h₁, h₂, by omega, by omega⟩⟩
  simp only [hs, Tail]
  by_cases h₁ : b.toNat = 0xE0
  · exact ⟨0xA0, 0xBF, by simp [lead, h₁], by omega⟩
  by_cases h₂ : b.toNat = 0xED
  · exact ⟨0x80, 0x9F, by simp [lead, h₂], by omega⟩
  refine ⟨0x80, 0xBF, ?_, by omega⟩
  simp only [lead]
  rw [if_neg (by omega), if_neg (by omega), if_neg (by omega), if_neg h₁, if_neg h₂, if_pos h']

/-- The range that `lead` gives for the second byte of a character of four
bytes. -/
theorem lead_four (h : 0xF0 ≤ b.toNat) (h' : b.toNat < 0xF5) :
    ∃ low high, lead b = .multi 3 low high ∧
      ∀ b₁ : UInt8, low ≤ b₁.toNat ∧ b₁.toNat ≤ high ↔ Second b b₁ := by
  have hs (b₁ : UInt8) : Second b b₁ ↔ Tail b₁ ∧ (b.toNat = 0xF0 → 0x90 ≤ b₁.toNat) ∧
      (b.toNat = 0xF4 → b₁.toNat ≤ 0x8F) :=
    ⟨fun s => ⟨s.isTail, s.of_F0, s.of_F4⟩,
      fun ⟨ht, h₁, h₂⟩ => ⟨ht, by omega, by omega, h₁, h₂⟩⟩
  simp only [hs, Tail]
  by_cases h₁ : b.toNat = 0xF0
  · exact ⟨0x90, 0xBF, by simp [lead, h₁], by omega⟩
  by_cases h₂ : b.toNat = 0xF4
  · exact ⟨0x80, 0x8F, by simp [lead, h₂], by omega⟩
  refine ⟨0x80, 0xBF, ?_, by omega⟩
  simp only [lead]
  rw [if_neg (by omega), if_neg (by omega), if_neg (by omega), if_neg (by omega),
    if_neg (by omega), if_neg (by omega), if_neg h₁, if_pos (by omega)]

theorem lead_one (h : b.toNat < 0x80) : lead b = .ascii := by
  simp only [lead]
  rw [if_pos h]

theorem lead_two (h : 0xC2 ≤ b.toNat) (h' : b.toNat < 0xE0) : lead b = .multi 1 0x80 0xBF := by
  simp only [lead]
  rw [if_neg (by omega), if_neg (by omega), if_pos h']

theorem lead_stray (h : 0x80 ≤ b.toNat ∧ b.toNat < 0xC2 ∨ 0xF5 ≤ b.toNat) : lead b = .stray := by
  simp only [lead]
  by_cases h' : b.toNat < 0xC2
  · rw [if_neg (by omega), if_pos h']
  · rw [if_neg (by omega), if_neg h', if_neg (by omega), if_neg (by omega), if_neg (by omega),
      if_neg (by omega), if_neg (by omega), if_neg (by omega), if_neg (by omega)]

/-- What is read as a character is in the table. -/
theorem form_of_readChar (h : readChar start b bs = .ok (c, rest)) :
    ∃ more n, Form n b more ∧ c = Char.ofNat n ∧ bs = more ++ rest := by
  have hr : b.toNat < 0x80 ∨ (0xC2 ≤ b.toNat ∧ b.toNat < 0xE0) ∨
      (0xE0 ≤ b.toNat ∧ b.toNat < 0xF0) ∨ (0xF0 ≤ b.toNat ∧ b.toNat < 0xF5) ∨
      (0x80 ≤ b.toNat ∧ b.toNat < 0xC2 ∨ 0xF5 ≤ b.toNat) := by
    omega
  rw [readChar] at h
  rcases hr with h₀ | ⟨h₀, h₀'⟩ | ⟨h₀, h₀'⟩ | ⟨h₀, h₀'⟩ | h₀
  · simp only [lead_one h₀, Except.ok.injEq, Prod.mk.injEq] at h
    exact ⟨[], _, .one h₀ rfl, h.1.symm, h.2⟩
  · simp only [lead_two h₀ h₀', readMore_succ_eq_ok_iff, readMore_zero_eq_ok_iff] at h
    obtain ⟨b₁, _, rfl, h₁, rfl, rfl⟩ := h
    exact ⟨_, _, .two h₀ h₀' h₁ rfl, rfl, rfl⟩
  · obtain ⟨low, high, hl, hs⟩ := lead_three h₀ h₀'
    simp only [hl, readMore_succ_eq_ok_iff, readMore_zero_eq_ok_iff] at h
    obtain ⟨b₁, _, rfl, h₁, b₂, _, rfl, h₂, rfl, rfl⟩ := h
    exact ⟨_, _, .three h₀ h₀' ((hs b₁).mp h₁) h₂ rfl, rfl, rfl⟩
  · obtain ⟨low, high, hl, hs⟩ := lead_four h₀ h₀'
    simp only [hl, readMore_succ_eq_ok_iff, readMore_zero_eq_ok_iff] at h
    obtain ⟨b₁, _, rfl, h₁, b₂, _, rfl, h₂, b₃, _, rfl, h₃, rfl, rfl⟩ := h
    exact ⟨_, _, .four h₀ h₀' ((hs b₁).mp h₁) h₂ h₃ rfl, rfl, rfl⟩
  · simp only [lead_stray h₀] at h
    contradiction

/-- What is in the table is read as a character. -/
theorem readChar_of_form {more : List UInt8} (h : Form n b more) :
    readChar start b (more ++ rest) = .ok (Char.ofNat n, rest) := by
  rw [readChar]
  cases h with
  | one h hn =>
      simp only [lead_one h, hn]
      rfl
  | two h h' h₁ hn =>
      simp only [lead_two h h', readMore_succ_eq_ok_iff, readMore_zero_eq_ok_iff]
      exact ⟨_, _, rfl, h₁, hn ▸ rfl, rfl⟩
  | three h h' h₁ h₂ hn =>
      obtain ⟨low, high, hl, hs⟩ := lead_three h h'
      simp only [hl, readMore_succ_eq_ok_iff, readMore_zero_eq_ok_iff]
      exact ⟨_, _, rfl, (hs _).mpr h₁, _, _, rfl, h₂, hn ▸ rfl, rfl⟩
  | four h h' h₁ h₂ h₃ hn =>
      obtain ⟨low, high, hl, hs⟩ := lead_four h h'
      simp only [hl, readMore_succ_eq_ok_iff, readMore_zero_eq_ok_iff]
      exact ⟨_, _, rfl, (hs _).mpr h₁, _, _, rfl, h₂, _, _, rfl, h₃, hn ▸ rfl, rfl⟩

end Read

/-! ## Writing -/

section Write

variable {n : Nat} {b : UInt8} {more : List UInt8}

/-- The numbers in the table are code points. -/
theorem Form.isValidChar (h : Form n b more) : n.isValidChar := by
  unfold Nat.isValidChar
  cases h with
  | one h hn => omega
  | two h h' h₁ hn => omega
  | three h h' h₁ h₂ hn =>
      obtain ⟨⟨_, _⟩, _, hd, _, _⟩ := h₁
      omega
  | four h h' h₁ h₂ h₃ hn =>
      obtain ⟨⟨_, _⟩, _, _, h₀, h₄⟩ := h₁
      omega

/-- The bytes in the table are written for their code point. -/
theorem encodeChar_of_form (h : Form n b more) : encodeChar (Char.ofNat n) = b :: more := by
  rw [encodeChar, toNat_ofNat h.isValidChar]
  cases h with
  | one h hn =>
      rw [if_pos (by omega), ofNat_eq_of_eq_toNat hn.symm]
  | two h h' h₁ hn =>
      have e : UInt8.ofNat (0xC0 + n / 0x40) = b := ofNat_eq_of_eq_toNat (by omega)
      rw [if_neg (by omega), if_pos (by omega), e, continuation_eq h₁ (by omega)]
  | @three b₁ b₂ h h' h₁ h₂ hn =>
      obtain ⟨⟨hl, hh⟩, hE0, _, _, _⟩ := h₁
      have e : UInt8.ofNat (0xE0 + n / 0x1000) = b := ofNat_eq_of_eq_toNat (by omega)
      have e₁ : continuation (n / 0x40) = b₁ := continuation_eq ⟨hl, hh⟩ (by omega)
      rw [if_neg (by omega), if_neg (by omega), if_pos (by omega), e, e₁,
        continuation_eq h₂ (by omega)]
  | @four b₁ b₂ b₃ h h' h₁ h₂ h₃ hn =>
      obtain ⟨⟨hl, hh⟩, _, _, hF0, _⟩ := h₁
      have e : UInt8.ofNat (0xF0 + n / 0x40000) = b := ofNat_eq_of_eq_toNat (by omega)
      have e₁ : continuation (n / 0x1000) = b₁ := continuation_eq ⟨hl, hh⟩ (by omega)
      have e₂ : continuation (n / 0x40) = b₂ := continuation_eq h₂ (by omega)
      rw [if_neg (by omega), if_neg (by omega), if_neg (by omega), e, e₁, e₂,
        continuation_eq h₃ (by omega)]

/-- What is written for a character is in the table. -/
theorem exists_form (c : Char) : ∃ b more, encodeChar c = b :: more ∧ Form c.toNat b more := by
  have hv := isValidChar_toNat c
  have hb {m : Nat} (h : m < 0x100) : (UInt8.ofNat m).toNat = m := by
    rw [UInt8.toNat_ofNat', Nat.mod_eq_of_lt h]
  unfold encodeChar
  generalize c.toNat = n at hv ⊢
  have e₁ := toNat_continuation (n / 0x1000)
  have e₂ := toNat_continuation (n / 0x40)
  have e₃ := toNat_continuation n
  by_cases h₁ : n < 0x80
  · have e := hb (show n < 0x100 by omega)
    rw [if_pos h₁]
    exact ⟨_, _, rfl, .one (by omega) e⟩
  by_cases h₂ : n < 0x800
  · have e := hb (show 0xC0 + n / 0x40 < 0x100 by omega)
    rw [if_neg h₁, if_pos h₂]
    exact ⟨_, _, rfl, .two (by omega) (by omega) (tail_continuation n) (by omega)⟩
  by_cases h₃ : n < 0x10000
  · have e := hb (show 0xE0 + n / 0x1000 < 0x100 by omega)
    rw [if_neg h₁, if_neg h₂, if_pos h₃]
    refine ⟨_, _, rfl, .three (by omega) (by omega) ?_ (tail_continuation n) (by omega)⟩
    exact ⟨tail_continuation _, by omega, by omega, by omega, by omega⟩
  · have e := hb (show 0xF0 + n / 0x40000 < 0x100 by omega)
    rw [if_neg h₁, if_neg h₂, if_neg h₃]
    refine ⟨_, _, rfl, .four (by omega) (by omega) ?_ (tail_continuation _) (tail_continuation n)
      (by omega)⟩
    exact ⟨tail_continuation _, by omega, by omega, by omega, by omega⟩

end Write

/-! ## Reading what was written -/

/-- A character is read from bytes exactly if they start with what is written for
it. -/
theorem readChar_eq_ok_iff {start : Nat} {b : UInt8} {bs rest : List UInt8} {c : Char} :
    readChar start b bs = .ok (c, rest) ↔ encodeChar c ++ rest = b :: bs := by
  constructor
  · intro h
    obtain ⟨more, n, hf, rfl, rfl⟩ := form_of_readChar h
    rw [encodeChar_of_form hf]
    rfl
  · intro h
    obtain ⟨b', more, he, hf⟩ := exists_form c
    rw [he, List.cons_append] at h
    obtain ⟨rfl, rfl⟩ := List.cons.inj h
    rw [readChar_of_form hf, Char.ofNat_toNat]

@[simp] theorem encode_nil : encode [] = [] := rfl

@[simp] theorem encode_cons (c : Char) (s : Text) : encode (c :: s) = encodeChar c ++ encode s :=
  rfl

theorem encodeChar_ne_nil (c : Char) : encodeChar c ≠ [] := by
  obtain ⟨b, more, he, _⟩ := exists_form c
  simp [he]

/-- A text is read from bytes exactly if they are what is written for it, wherever
they lie. -/
theorem decodeFrom_eq_ok_iff {start : Nat} {bs : List UInt8} {s : Text} :
    decodeFrom start bs = .ok s ↔ encode s = bs := by
  fun_induction decodeFrom start bs generalizing s with
  | case1 start => cases s <;> simp [encodeChar_ne_nil]
  | case2 start b bs fault h =>
      refine ⟨fun he => by contradiction, fun he => ?_⟩
      cases s with
      | nil => contradiction
      | cons c s =>
          have hr : readChar start b bs = .ok (c, encode s) := readChar_eq_ok_iff.mpr he
          rw [h] at hr
          contradiction
  | case3 start b bs c rest h ih =>
      constructor
      · intro hm
        cases hd : decodeFrom (start + (encodeChar c).length) rest with
        | error fault =>
            rw [hd] at hm
            contradiction
        | ok s' =>
            rw [hd] at hm
            obtain rfl : c :: s' = s := Except.ok.inj hm
            rw [encode_cons, ih.mp hd]
            exact readChar_eq_ok_iff.mp h
      · intro he
        cases s with
        | nil => contradiction
        | cons c' s' =>
            have hr : readChar start b bs = .ok (c', encode s') := readChar_eq_ok_iff.mpr he
            obtain ⟨rfl, rfl⟩ := Prod.mk.inj (Except.ok.inj (h.symm.trans hr))
            rw [ih.mpr rfl]
            rfl

/-- **Reading UTF-8**: a text is read from bytes exactly if they are what is written
for it. -/
theorem decode_eq_ok_iff {bs : List UInt8} {s : Text} : decode bs = .ok s ↔ encode s = bs :=
  decodeFrom_eq_ok_iff

/-- Two texts have the same bytes only if they are one. -/
theorem encode_injective {s t : Text} (h : encode s = encode t) : s = t :=
  Except.ok.inj ((decode_eq_ok_iff.2 h).symm.trans (decode_eq_ok_iff.2 rfl))

/-- Bytes are refused exactly if they are written for no text. -/
theorem exists_fault_iff {bs : List UInt8} :
    (∃ fault, decode bs = .error fault) ↔ ∀ s, encode s ≠ bs := by
  cases hd : decode bs with
  | error fault =>
      refine ⟨fun _ s he => ?_, fun _ => ⟨fault, rfl⟩⟩
      rw [decode_eq_ok_iff.mpr he] at hd
      contradiction
  | ok s => simpa using ⟨s, decode_eq_ok_iff.mp hd⟩

end LuaReveal.Text.Utf8
