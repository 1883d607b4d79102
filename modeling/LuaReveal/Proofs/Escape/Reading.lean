import LuaReveal.Escape.Mnemonic
import LuaReveal.Escape.Octal
import LuaReveal.Text.Word

/-!
# LuaReveal.Proofs.Escape.Reading

How a text is read from the left by its backslashes: as pairs of backslashes,
octal escapes, short escapes (a backslash and a character that is no backslash
and starts no three octal digits), a lone backslash at the end, and plain
characters.  `reading_induction` is the induction along this reading, and each
of its cases has one equation for `tokens` and one for `decode`.
-/

namespace LuaReveal.Escape

/-! ## Octal digits -/

/-- A character that writes an octal digit. -/
def isOctalDigit (c : Char) : Bool :=
  (OctalDigit.ofChar? c).isSome

@[simp] theorem isOctalDigit_char (d : OctalDigit) : isOctalDigit d.char = true := by
  revert d
  decide

@[simp] theorem OctalDigit.char_ne_backslash (d : OctalDigit) : d.char ≠ '\\' := by
  revert d
  decide

@[simp] theorem OctalDigit.isWord_char (d : OctalDigit) : Text.isWord d.char = true := by
  revert d
  decide

/-- The first digit of a code is an octal digit, and so are the other two. -/
theorem isOctalDigit_of_mem_digits {code : OctalCode} {c : Char} (h : c ∈ code.digits) :
    isOctalDigit c = true := by
  simp only [OctalCode.digits, List.mem_cons, List.not_mem_nil, or_false] at h
  rcases h with rfl | rfl | rfl <;> exact isOctalDigit_char _

/-- No code is written by digits of which one is no octal digit. -/
theorem cons_ne_digits_append {c : Char} (h : isOctalDigit c = false) (code : OctalCode)
    (r s : Text) : c :: s ≠ code.digits ++ r := by
  intro he
  have hc : c = code.high.char := (List.cons.inj he).1
  rw [hc, isOctalDigit_char] at h
  contradiction

/-- A text that starts no code starts none when a character is appended that is no
octal digit. -/
theorem append_cons_ne_digits_append {s : Text} {c : Char}
    (hs : ∀ code r, s ≠ OctalCode.digits code ++ r) (hc : isOctalDigit c = false)
    (code : OctalCode) (r t : Text) : s ++ c :: t ≠ code.digits ++ r := by
  intro h
  rcases List.append_eq_append_iff.mp h with ⟨a, ha, he⟩ | ⟨a, ha, _⟩
  · cases a with
    | nil => exact hs code [] (by rw [ha, List.append_nil, List.append_nil])
    | cons e a =>
        have hm : c ∈ code.digits := by
          rw [ha, (List.cons.inj he).1]
          simp
        rw [isOctalDigit_of_mem_digits hm] at hc
        contradiction
  · exact hs code a ha

/-! ## Tokens -/

@[simp] theorem tokens_nil : tokens [] = [] := rfl

@[simp] theorem tokens_pair (s : Text) :
    tokens ('\\' :: '\\' :: s) = .backslashes :: tokens s := by
  simp [tokens]

@[simp] theorem tokens_lone : tokens ['\\'] = [.plain '\\'] := by
  simp [tokens]

theorem tokens_plain {c : Char} (hc : c ≠ '\\') (s : Text) :
    tokens (c :: s) = .plain c :: tokens s := by
  rw [tokens]
  · exact fun r h => absurd h hc
  · exact fun a b c r h => absurd h hc

@[simp] theorem tokens_code (code : OctalCode) (s : Text) :
    tokens ('\\' :: (code.digits ++ s)) = .octal code :: tokens s := by
  have hc : OctalCode.ofChars? code.high.char code.mid.char code.low.char = some code :=
    OctalCode.ofChars?_eq_some_iff.mpr rfl
  simp only [OctalCode.digits, List.cons_append, List.nil_append]
  rw [tokens]
  · rw [hc]
  · intro h
    exact absurd h (OctalDigit.char_ne_backslash _)

/-- A backslash before a character that is no backslash and starts no code is a
token by itself, and so is that character. -/
theorem tokens_short {c : Char} {s : Text} (hc : c ≠ '\\')
    (h : ∀ code r, c :: s ≠ OctalCode.digits code ++ r) :
    tokens ('\\' :: c :: s) = .plain '\\' :: .plain c :: tokens s := by
  match s with
  | [] | [a] => simp [tokens, hc]
  | a :: b :: r =>
      have hn : OctalCode.ofChars? c a b = none := by
        cases ho : OctalCode.ofChars? c a b with
        | none => rfl
        | some code =>
            have hd := OctalCode.ofChars?_eq_some_iff.mp ho
            exact absurd (congrArg (· ++ r) hd) (h code r)
      rw [tokens, hn]
      · exact congrArg _ (tokens_plain hc _)
      · exact hc

/-! ## Induction -/

/-- A text starts with three octal digits or does not. -/
theorem startsCode_or (s : Text) :
    (∃ code r, s = OctalCode.digits code ++ r) ∨ ∀ code r, s ≠ OctalCode.digits code ++ r := by
  by_cases h : ∃ code r, s = OctalCode.digits code ++ r
  · exact .inl h
  · exact .inr fun code r he => h ⟨code, r, he⟩

/-- Induction along the reading of a text by its backslashes. -/
@[elab_as_elim]
theorem reading_induction {motive : Text → Prop}
    (nil : motive [])
    (pair : ∀ s, motive s → motive ('\\' :: '\\' :: s))
    (code : ∀ (code : OctalCode) s, motive s → motive ('\\' :: (code.digits ++ s)))
    (short : ∀ c s, c ≠ '\\' → (∀ code r, c :: s ≠ OctalCode.digits code ++ r) →
      motive s → motive ('\\' :: c :: s))
    (lone : motive ['\\'])
    (plain : ∀ c s, c ≠ '\\' → motive s → motive (c :: s))
    (s : Text) : motive s := by
  match s with
  | [] => exact nil
  | c :: s =>
      by_cases hb : c = '\\'
      · subst hb
        match s with
        | [] => exact lone
        | c :: s =>
            by_cases hc : c = '\\'
            · subst hc
              exact pair s (reading_induction nil pair code short lone plain s)
            · rcases startsCode_or (c :: s) with ⟨o, r, he⟩ | hn
              · rw [he]
                have hlt : r.length < s.length + 1 + 1 := by
                  have := congrArg List.length he
                  simp only [OctalCode.digits, List.length_cons, List.length_append,
                    List.length_nil] at this
                  omega
                exact code o r (reading_induction nil pair code short lone plain r)
              · exact short c s hc hn (reading_induction nil pair code short lone plain s)
      · exact plain c s hb (reading_induction nil pair code short lone plain s)
termination_by s.length

/-- Before a character that no escape takes in, the reading may be stopped and
started again. -/
theorem tokens_append_cons {c : Char} (hc : c ≠ '\\') (ho : isOctalDigit c = false) (s t : Text) :
    tokens (s ++ c :: t) = tokens s ++ tokens (c :: t) := by
  induction s using reading_induction with
  | nil => rfl
  | pair s ih =>
      rw [List.cons_append, List.cons_append, tokens_pair, tokens_pair, ih]
      rfl
  | code code s ih =>
      rw [List.cons_append, List.append_assoc, tokens_code, tokens_code, ih]
      rfl
  | short d s hd hn ih =>
      have hn' : ∀ code r, d :: (s ++ c :: t) ≠ OctalCode.digits code ++ r := fun code r =>
        append_cons_ne_digits_append hn ho code r t
      rw [List.cons_append, List.cons_append, tokens_short hd hn', tokens_short hd hn, ih]
      rfl
  | lone =>
      have hn : ∀ code r, c :: t ≠ OctalCode.digits code ++ r := fun code r =>
        cons_ne_digits_append ho code r t
      rw [List.singleton_append, tokens_short hc hn, tokens_lone, tokens_plain hc]
      rfl
  | plain d s hd ih =>
      rw [List.cons_append, tokens_plain hd, tokens_plain hd, ih]
      rfl

/-! ## Decoding -/

section Decode

variable (policy : Policy) (place : Place)

@[simp] theorem decode_nil : decode policy place [] = [] := rfl

@[simp] theorem decode_pair (s : Text) :
    decode policy place ('\\' :: '\\' :: s) = '\\' :: '\\' :: decode policy place s := by
  simp [decode, Token.decode, Token.text]

@[simp] theorem decode_lone : decode policy place ['\\'] = ['\\'] := by
  simp [decode, Token.decode, Token.text]

@[simp] theorem decode_code (code : OctalCode) (s : Text) :
    decode policy place ('\\' :: (code.digits ++ s)) =
      code.decode policy place ++ decode policy place s := by
  simp [decode, Token.decode]

theorem decode_plain {c : Char} (hc : c ≠ '\\') (s : Text) :
    decode policy place (c :: s) = c :: decode policy place s := by
  simp [decode, tokens_plain hc, Token.decode, Token.text]

theorem decode_short {c : Char} {s : Text} (hc : c ≠ '\\')
    (h : ∀ code r, c :: s ≠ OctalCode.digits code ++ r) :
    decode policy place ('\\' :: c :: s) = '\\' :: c :: decode policy place s := by
  simp [decode, tokens_short hc h, Token.decode, Token.text]

/-- Before a character that no escape takes in, the decoder may be stopped and
started again. -/
theorem decode_append_cons {c : Char} (hc : c ≠ '\\') (ho : isOctalDigit c = false) (s t : Text) :
    decode policy place (s ++ c :: t) = decode policy place s ++ decode policy place (c :: t) := by
  simp only [decode, tokens_append_cons hc ho, List.flatMap_append]

end Decode

/-! ## What is written for an escape in a literal -/

/-- The texts that may stand for an escape between the quotes of a literal. -/
inductive OctalCode.Written (policy : Policy) (code : OctalCode) : Text → Prop
  /-- A backslash and a character that makes no octal escape with it. -/
  | mnemonic (d : Char) (h : d ∈ ['"', '\\', 'n', 't', 'r']) : Written policy code ['\\', d]
  /-- A character that needs no backslash. -/
  | single (c : Char) (h : c ∉ ['"', '\\', '\n']) : Written policy code [c]
  /-- The escape itself, if the policy does not convert it. -/
  | kept (h : code.isConverted policy = false) : Written policy code ('\\' :: code.digits)
  /-- The digits in brackets. -/
  | bracketed : Written policy code ('[' :: (code.digits ++ [']']))
  /-- Nothing. -/
  | dropped : Written policy code []

/-- A character is written for a literal as the mnemonic escape that stands for it, or
by itself if it needs no backslash. -/
theorem write_quoted_cases (c : Char) :
    (∃ d ∈ ['"', '\\', 'n', 't', 'r'], mnemonic? d = some c ∧ Place.quoted.write c = ['\\', d]) ∨
      c ∉ ['"', '\\', '\n'] ∧ Place.quoted.write c = [c] := by
  simp only [Place.write]
  by_cases hq : c = '"' ∨ c = '\\'
  · rw [if_pos hq]
    exact .inl ⟨c, by rcases hq with rfl | rfl <;> decide, by rcases hq with rfl | rfl <;> rfl, rfl⟩
  rw [if_neg hq]
  by_cases hn : c = '\n'
  · rw [if_pos hn]
    exact .inl ⟨'n', by decide, by rw [hn]; rfl, rfl⟩
  rw [if_neg hn]
  by_cases ht : c = '\t'
  · rw [if_pos ht]
    exact .inl ⟨'t', by decide, by rw [ht]; rfl, rfl⟩
  rw [if_neg ht]
  by_cases hr : c = '\r'
  · rw [if_pos hr]
    exact .inl ⟨'r', by decide, by rw [hr]; rfl, rfl⟩
  rw [if_neg hr]
  exact .inr ⟨by simpa [not_or, and_assoc] using And.intro (not_or.mp hq) hn, rfl⟩

/-- A character is written for a literal in one of the forms of `Written`. -/
theorem written_write (policy : Policy) (code : OctalCode) (c : Char) :
    code.Written policy (Place.quoted.write c) := by
  rcases write_quoted_cases c with ⟨d, hd, _, hw⟩ | ⟨hc, hw⟩
  · rw [hw]
    exact .mnemonic d hd
  · rw [hw]
    exact .single c hc

/-- An escape is written for a literal in one of the forms of `Written`. -/
theorem written_decode (policy : Policy) (code : OctalCode) :
    code.Written policy (code.decode policy .quoted) := by
  unfold OctalCode.decode
  by_cases hp : code.isPrintable = true
  · rw [if_pos hp]
    exact written_write policy code code.char
  · rw [if_neg hp]
    cases policy with
    | preserve => exact .kept (by simpa [OctalCode.isConverted] using hp)
    | bracket => exact .bracketed
    | filter =>
        dsimp only
        by_cases hv : code.value ∈ [9, 10, 13]
        · rw [if_pos hv]
          exact written_write .filter code code.char
        · rw [if_neg hv]
          exact .dropped

end LuaReveal.Escape
