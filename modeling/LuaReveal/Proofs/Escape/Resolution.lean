import LuaReveal.Escape.Mnemonic
import LuaReveal.Proofs.Escape.Reading

/-!
# LuaReveal.Proofs.Escape.Resolution

Mnemonic escapes in a decoded text.  A text that is decoded for a literal has a
backslash before each backslash that it stands for, so resolving its mnemonic
escapes gives back what each escape wrote (`resolve_write_append`).  A text that is
decoded by itself has not, and resolving it can take a decoded backslash for the
first character of a mnemonic escape.

Resolving the two gives the same text exactly if no decoded backslash is misread
(`resolve_decode_eq_iff`).  Where one is misread the results differ for good, since
resolving the text decoded by itself never gives more characters
(`length_resolve_decode_le`).
-/

namespace LuaReveal.Escape

/-! ## Resolving -/

section Resolve

variable {c d : Char}

@[simp] theorem resolve_nil : resolve [] = [] := rfl

@[simp] theorem resolve_lone : resolve ['\\'] = ['\\'] := by
  simp [resolve]

theorem resolve_plain (hc : c ≠ '\\') (s : Text) : resolve (c :: s) = c :: resolve s := by
  rw [resolve]
  exact fun _ _ h => absurd h hc

theorem resolve_mnemonic (h : mnemonic? c = some d) (s : Text) :
    resolve ('\\' :: c :: s) = d :: resolve s := by
  rw [resolve, h]

@[simp] theorem resolve_pair (s : Text) : resolve ('\\' :: '\\' :: s) = '\\' :: resolve s :=
  resolve_mnemonic rfl s

@[simp] theorem mnemonic?_backslash : mnemonic? '\\' = some '\\' := rfl

theorem ne_backslash_of_mnemonic? (h : mnemonic? c = none) : c ≠ '\\' := by
  rintro rfl
  contradiction

/-- A backslash that makes no mnemonic escape stays, and so does the character
after it. -/
theorem resolve_of_mnemonic?_eq_none (h : mnemonic? c = none) (s : Text) :
    resolve ('\\' :: c :: s) = '\\' :: c :: resolve s := by
  rw [resolve, h]
  exact congrArg _ (resolve_plain (ne_backslash_of_mnemonic? h) s)

/-- A text without backslashes stays. -/
theorem resolve_append_of_notMem {w : Text} (hw : '\\' ∉ w) (s : Text) :
    resolve (w ++ s) = w ++ resolve s := by
  induction w with
  | nil => rfl
  | cons c w ih =>
      obtain ⟨hc, ht⟩ := List.ne_and_not_mem_of_not_mem_cons hw
      rw [List.cons_append, resolve_plain (Ne.symm hc), ih ht]
      rfl

/-- What is written for a character in a literal is resolved to the character. -/
theorem resolve_write_append (c : Char) (s : Text) :
    resolve (Place.quoted.write c ++ s) = c :: resolve s := by
  rcases write_quoted_cases c with ⟨d, _, hd, hw⟩ | ⟨hc, hw⟩
  · rw [hw]
    exact resolve_mnemonic hd s
  · rw [hw]
    exact resolve_plain (fun hb => hc (by simp [hb])) s

/-- A backslash before a text takes no character of what the text is resolved to,
and adds at most itself. -/
theorem length_resolve_backslash_cons (s : Text) :
    (resolve s).length ≤ (resolve ('\\' :: s)).length ∧
      (resolve ('\\' :: s)).length ≤ (resolve s).length + 1 := by
  match s with
  | [] => simp
  | c :: s =>
      by_cases hc : c = '\\'
      · subst hc
        have ih := length_resolve_backslash_cons s
        rw [resolve_pair, List.length_cons]
        omega
      · rw [resolve_plain hc]
        cases h : mnemonic? c with
        | none =>
            rw [resolve_of_mnemonic?_eq_none h]
            simp only [List.length_cons]
            omega
        | some d =>
            rw [resolve_mnemonic h]
            simp only [List.length_cons]
            omega
termination_by s.length

/-- A backslash that makes no mnemonic escape with the first of some characters other
than backslashes stays before them. -/
theorem resolve_backslash_append {w : Text} (hc : mnemonic? c = none) (hw : '\\' ∉ w) (s : Text) :
    resolve ('\\' :: (c :: w ++ s)) = '\\' :: (c :: w ++ resolve s) := by
  rw [List.cons_append, resolve_of_mnemonic?_eq_none hc, resolve_append_of_notMem hw]
  rfl

theorem backslash_notMem_digits (code : OctalCode) : '\\' ∉ code.digits := by
  simp [OctalCode.digits, Ne.symm (OctalDigit.char_ne_backslash _)]

/-- An octal escape is no mnemonic one. -/
theorem resolve_digits_append (code : OctalCode) (s : Text) :
    resolve ('\\' :: (code.digits ++ s)) = '\\' :: (code.digits ++ resolve s) := by
  have hd (d : OctalDigit) : mnemonic? d.char = none := by
    revert d
    decide
  have hw : '\\' ∉ [code.mid.char, code.low.char] := fun h =>
    backslash_notMem_digits code (List.mem_cons_of_mem _ h)
  exact resolve_backslash_append (hd code.high) hw s

end Resolve

/-! ## What is written at the two places -/

/-- What is written for an escape in a literal and by itself: a character, or the
same text at both places, and then the escape is that of no backslash. -/
theorem OctalCode.decode_cases (policy : Policy) (code : OctalCode) :
    (∀ place, code.decode policy place = place.write code.char) ∨
      code.char ≠ '\\' ∧
        ((∀ place, code.decode policy place = '\\' :: code.digits) ∨
          (∀ place, code.decode policy place = '[' :: code.digits ++ [']']) ∨
          ∀ place, code.decode policy place = []) := by
  by_cases hp : code.isPrintable = true
  · exact .inl fun place => if_pos hp
  have hb : code.char ≠ '\\' := by
    obtain ⟨high, mid, low⟩ := code
    revert high mid low
    decide
  cases policy with
  | preserve => exact .inr ⟨hb, .inl fun place => if_neg hp⟩
  | bracket => exact .inr ⟨hb, .inr (.inl fun place => if_neg hp)⟩
  | filter =>
      by_cases hv : code.value ∈ [9, 10, 13]
      · exact .inl fun place => (if_neg hp).trans (if_pos hv)
      · exact .inr ⟨hb, .inr (.inr fun place => (if_neg hp).trans (if_neg hv))⟩

/-- Resolving a text that is decoded by itself gives at most as many characters as
resolving the text decoded for a literal. -/
theorem length_resolve_decode_le (policy : Policy) (s : Text) :
    (resolve (decode policy .bare s)).length ≤ (resolve (decode policy .quoted s)).length := by
  induction s using reading_induction with
  | nil => simp
  | pair s ih => simpa using ih
  | code code s ih =>
      rw [decode_code, decode_code]
      rcases code.decode_cases policy with h | ⟨_, h | h | h⟩
      · rw [h, h, resolve_write_append]
        have hc : (resolve (code.char :: decode policy .bare s)).length ≤
            (resolve (decode policy .bare s)).length + 1 := by
          by_cases hb : code.char = '\\'
          · rw [hb]
            exact (length_resolve_backslash_cons _).2
          · simp [resolve_plain hb]
        show (resolve (code.char :: decode policy .bare s)).length ≤ _
        simp only [List.length_cons]
        omega
      · rw [h, h, List.cons_append, List.cons_append, resolve_digits_append, resolve_digits_append]
        simpa using ih
      · have hb : '\\' ∉ '[' :: code.digits ++ [']'] := by
          simpa using backslash_notMem_digits code
        rw [h, h, resolve_append_of_notMem hb, resolve_append_of_notMem hb]
        simpa using ih
      · rw [h, h]
        exact ih
  | short c s hc hn ih =>
      rw [decode_short policy .bare hc hn, decode_short policy .quoted hc hn]
      cases h : mnemonic? c with
      | none => simpa [resolve_of_mnemonic?_eq_none h] using ih
      | some d => simpa [resolve_mnemonic h] using ih
  | lone => simp
  | plain c s hc ih =>
      rw [decode_plain policy .bare hc, decode_plain policy .quoted hc, resolve_plain hc,
        resolve_plain hc]
      simpa using ih

/-! ## Misread backslashes -/

/-- A backslash decoded before the tokens is left by resolving, or what it is read
with stands for the same.  Pairs of backslashes and escapes for which nothing is
written do not matter; then the text ends, or a character comes that makes no mnemonic
escape with the backslash, or an escape comes that stands for its own second
character. -/
def leavesBackslash (policy : Policy) : List Token → Bool
  | [] => true
  | .backslashes :: ts => leavesBackslash policy ts
  | .octal code :: ts =>
    match code.decode policy .bare with
    | [] => leavesBackslash policy ts
    | c :: _ => (mnemonic? c).isNone
  | .plain '\\' :: .plain c :: _ => mnemonic? c == some c
  | .plain c :: _ => (mnemonic? c).isNone

/-- Among the tokens is an escape of a backslash that resolving misreads once the
tokens are decoded. -/
def misreads (policy : Policy) : List Token → Bool
  | [] => false
  | .octal code :: ts => code.char == '\\' && !leavesBackslash policy ts || misreads policy ts
  | _ :: ts => misreads policy ts

theorem leavesBackslash_plain {c : Char} (hc : c ≠ '\\') (policy : Policy) (ts : List Token) :
    leavesBackslash policy (.plain c :: ts) = (mnemonic? c).isNone := by
  rw [leavesBackslash]
  exact fun _ _ _ h => hc h

/-- A backslash is resolved with a character after it as the two characters are
exactly if they make no mnemonic escape. -/
theorem resolve_backslash_cons_eq_iff (c : Char) {s t : Text}
    (hl : (resolve s).length ≤ t.length) :
    resolve ('\\' :: c :: s) = '\\' :: c :: t ↔ (mnemonic? c).isNone = true ∧ resolve s = t := by
  cases h : mnemonic? c with
  | none => simp [resolve_of_mnemonic?_eq_none h]
  | some d =>
      have hne : resolve ('\\' :: c :: s) ≠ '\\' :: c :: t := by
        intro he
        have hlen := congrArg List.length he
        rw [resolve_mnemonic h] at hlen
        simp only [List.length_cons] at hlen
        omega
      simp [hne]

/-- What resolving makes of a text decoded by itself and of the same text decoded for
a literal: the same exactly if no decoded backslash is misread, also with one more
decoded backslash before the text. -/
structure Comparison (policy : Policy) (s : Text) : Prop where
  alone : resolve (decode policy .bare s) = resolve (decode policy .quoted s) ↔
    misreads policy (tokens s) = false
  behind : resolve ('\\' :: decode policy .bare s) = '\\' :: resolve (decode policy .quoted s) ↔
    leavesBackslash policy (tokens s) = true ∧ misreads policy (tokens s) = false

namespace Comparison

variable {policy : Policy} {s : Text}

theorem pair (h : Comparison policy s) : Comparison policy ('\\' :: '\\' :: s) where
  alone := by simpa [misreads] using h.alone
  behind := by simpa [misreads, leavesBackslash] using h.behind

theorem plain {c : Char} (hc : c ≠ '\\') (h : Comparison policy s) : Comparison policy (c :: s) := by
  have hm : misreads policy (tokens (c :: s)) = misreads policy (tokens s) := by
    rw [tokens_plain hc]
    rfl
  have hk : leavesBackslash policy (tokens (c :: s)) = (mnemonic? c).isNone := by
    rw [tokens_plain hc, leavesBackslash_plain hc]
  constructor
  · rw [decode_plain policy .bare hc, decode_plain policy .quoted hc, resolve_plain hc,
      resolve_plain hc, List.cons.injEq, hm, h.alone]
    simp
  · rw [decode_plain policy .bare hc, decode_plain policy .quoted hc, resolve_plain hc,
      resolve_backslash_cons_eq_iff c (length_resolve_decode_le policy s), hm, hk, h.alone]

theorem short {c : Char} (hc : c ≠ '\\') (hn : ∀ code r, c :: s ≠ OctalCode.digits code ++ r)
    (h : Comparison policy s) : Comparison policy ('\\' :: c :: s) := by
  have hm : misreads policy (tokens ('\\' :: c :: s)) = misreads policy (tokens s) := by
    rw [tokens_short hc hn]
    rfl
  have hk : leavesBackslash policy (tokens ('\\' :: c :: s)) = (mnemonic? c == some c) := by
    rw [tokens_short hc hn]
    rfl
  constructor
  · rw [decode_short policy .bare hc hn, decode_short policy .quoted hc hn, hm, ← h.alone]
    cases hd : mnemonic? c with
    | none => simp [resolve_of_mnemonic?_eq_none hd]
    | some d => simp [resolve_mnemonic hd]
  · -- The decoded backslash and the one of the escape are read as a pair.
    rw [decode_short policy .bare hc hn, decode_short policy .quoted hc hn, hm, hk, ← h.alone,
      resolve_pair, resolve_plain hc]
    cases hd : mnemonic? c with
    | none => simp [resolve_of_mnemonic?_eq_none hd, hc]
    | some d =>
        have hcd : (some d == some c) = true ↔ c = d := by
          rw [beq_iff_eq, Option.some.injEq, eq_comm]
        rw [resolve_mnemonic hd, List.cons.injEq, List.cons.injEq, hcd]
        simp

/-- An escape for which a character is written at both places. -/
theorem written {code : OctalCode} (hw : ∀ place, code.decode policy place = place.write code.char)
    (h : Comparison policy s) : Comparison policy ('\\' :: (code.digits ++ s)) := by
  have hle := length_resolve_decode_le policy s
  have hm : misreads policy (tokens ('\\' :: (code.digits ++ s))) =
      (code.char == '\\' && !leavesBackslash policy (tokens s) || misreads policy (tokens s)) := by
    rw [tokens_code]
    rfl
  have hk : leavesBackslash policy (tokens ('\\' :: (code.digits ++ s))) =
      (mnemonic? code.char).isNone := by
    rw [tokens_code, leavesBackslash, hw]
    rfl
  have hbare : decode policy .bare ('\\' :: (code.digits ++ s)) =
      code.char :: decode policy .bare s := by
    rw [decode_code, hw]
    rfl
  have hquoted : resolve (decode policy .quoted ('\\' :: (code.digits ++ s))) =
      code.char :: resolve (decode policy .quoted s) := by
    rw [decode_code, hw, resolve_write_append]
  constructor
  · rw [hbare, hquoted, hm]
    by_cases hb : code.char = '\\'
    · rw [hb, h.behind]
      simp
    · rw [resolve_plain hb, List.cons.injEq, h.alone]
      simp [hb]
  · rw [hbare, hquoted, hm, hk]
    by_cases hb : code.char = '\\'
    · -- Two decoded backslashes are read as a pair, which leaves one character too few.
      have hne : resolve (decode policy .bare s) ≠ '\\' :: resolve (decode policy .quoted s) := by
        intro he
        have hlen := congrArg List.length he
        simp only [List.length_cons] at hlen
        omega
      simp [hb, hne]
    · rw [resolve_backslash_cons_eq_iff code.char hle, h.alone]
      simp [hb]

/-- An escape that is kept. -/
theorem kept {code : OctalCode} (hb : code.char ≠ '\\')
    (hw : ∀ place, code.decode policy place = '\\' :: code.digits) (h : Comparison policy s) :
    Comparison policy ('\\' :: (code.digits ++ s)) := by
  have hle := length_resolve_decode_le policy s
  have hm : misreads policy (tokens ('\\' :: (code.digits ++ s))) = misreads policy (tokens s) := by
    simp [misreads, hb]
  have hk : leavesBackslash policy (tokens ('\\' :: (code.digits ++ s))) = false := by
    simp [leavesBackslash, hw]
  have hne : code.digits ++ resolve (decode policy .bare s) ≠
      '\\' :: (code.digits ++ resolve (decode policy .quoted s)) := by
    intro he
    have hlen := congrArg List.length he
    simp only [List.length_append, List.length_cons] at hlen
    omega
  constructor
  · rw [decode_code, decode_code, hw, hw, List.cons_append, List.cons_append,
      resolve_digits_append, resolve_digits_append, hm, ← h.alone]
    simp
  · rw [decode_code, decode_code, hw, hw, List.cons_append, List.cons_append, resolve_pair,
      resolve_append_of_notMem (backslash_notMem_digits code), resolve_digits_append, hk]
    simp [hne]

/-- An escape that is put in brackets. -/
theorem bracketed {code : OctalCode} (hb : code.char ≠ '\\')
    (hw : ∀ place, code.decode policy place = '[' :: code.digits ++ [']'])
    (h : Comparison policy s) : Comparison policy ('\\' :: (code.digits ++ s)) := by
  have hm : misreads policy (tokens ('\\' :: (code.digits ++ s))) = misreads policy (tokens s) := by
    simp [misreads, hb]
  have hk : leavesBackslash policy (tokens ('\\' :: (code.digits ++ s))) = true := by
    rw [tokens_code, leavesBackslash, hw]
    rfl
  have hn : '\\' ∉ code.digits ++ [']'] := by
    simpa using backslash_notMem_digits code
  have hn' : '\\' ∉ '[' :: code.digits ++ [']'] := by
    simpa using hn
  have hr (t : Text) : resolve ('\\' :: ('[' :: code.digits ++ [']'] ++ t)) =
      '\\' :: ('[' :: code.digits ++ [']'] ++ resolve t) := resolve_backslash_append rfl hn t
  constructor
  · rw [decode_code, decode_code, hw, hw, resolve_append_of_notMem hn',
      resolve_append_of_notMem hn', hm, ← h.alone]
    simp
  · rw [decode_code, decode_code, hw, hw, hr, resolve_append_of_notMem hn', hm, hk, ← h.alone]
    simp

/-- An escape for which nothing is written. -/
theorem dropped {code : OctalCode} (hb : code.char ≠ '\\')
    (hw : ∀ place, code.decode policy place = []) (h : Comparison policy s) :
    Comparison policy ('\\' :: (code.digits ++ s)) where
  alone := by simpa [misreads, hw, hb] using h.alone
  behind := by simpa [misreads, leavesBackslash, hw, hb] using h.behind

end Comparison

/-- The comparison of the two ways of decoding holds for every text. -/
theorem comparison (policy : Policy) (s : Text) : Comparison policy s := by
  induction s using reading_induction with
  | nil => constructor <;> simp [misreads, leavesBackslash]
  | pair s ih => exact ih.pair
  | code code s ih =>
      rcases code.decode_cases policy with hw | ⟨hb, hw | hw | hw⟩
      · exact ih.written hw
      · exact ih.kept hb hw
      · exact ih.bracketed hb hw
      · exact ih.dropped hb hw
  | short c s hc hn ih => exact ih.short hc hn
  | lone => constructor <;> simp [misreads, leavesBackslash]
  | plain c s hc ih => exact ih.plain hc

/-- **Resolving a decoded text**: it comes to the same by itself and for a literal
exactly if no decoded backslash is misread. -/
theorem resolve_decode_eq_iff (policy : Policy) (s : Text) :
    resolve (decode policy .bare s) = resolve (decode policy .quoted s) ↔
      misreads policy (tokens s) = false :=
  (comparison policy s).alone

end LuaReveal.Escape
