import Mathlib.Algebra.GroupWithZero.Nat
import LuaReveal.Proofs.Escape.Reading

/-!
# LuaReveal.Proofs.Escape.Repetition

What decoding does to a text that it has nothing to rewrite in, and to a text
that it wrote itself.

Each escape that a policy rewrites makes the text lighter (`weight`), whatever
is written for it, so changes never cancel: decoding keeps a text exactly if
there is nothing to convert (`decode_eq_self_iff`).  A text that was decoded for
a literal holds escapes to convert exactly if a backslash that stood before
fewer than three octal digits has three of them after the decoding
(`convertedCount_decode_eq_zero_iff`).
-/

namespace LuaReveal.Escape

/-! ## Weight -/

/-- A backslash weighs two, an octal digit one, and any other character
nothing. -/
def charWeight (c : Char) : Nat :=
  if c = '\\' then 2 else if isOctalDigit c then 1 else 0

/-- The weight of a text is that of its characters. -/
def weight (s : Text) : Nat :=
  (s.map charWeight).sum

@[simp] theorem weight_nil : weight [] = 0 := rfl

@[simp] theorem weight_cons (c : Char) (s : Text) : weight (c :: s) = charWeight c + weight s := by
  simp [weight]

@[simp] theorem weight_append (s t : Text) : weight (s ++ t) = weight s + weight t := by
  simp [weight]

@[simp] theorem charWeight_backslash : charWeight '\\' = 2 := by
  decide

theorem charWeight_le (c : Char) : charWeight c ≤ 2 := by
  unfold charWeight
  split
  · exact Nat.le_refl 2
  · split <;> omega

@[simp] theorem weight_digits (code : OctalCode) : weight code.digits = 3 := by
  have h (d : OctalDigit) : charWeight d.char = 1 := by
    revert d
    decide
  simp [OctalCode.digits, h]

/-- A character written at a place weighs less than an octal escape. -/
theorem weight_write_le (place : Place) (c : Char) : weight (place.write c) ≤ 4 := by
  have hc := charWeight_le c
  cases place with
  | bare =>
      simp only [Place.write, weight_cons, weight_nil]
      omega
  | quoted =>
      rcases write_quoted_cases c with ⟨d, _, _, hw⟩ | ⟨_, hw⟩
      · have hd := charWeight_le d
        simp only [hw, weight_cons, weight_nil, charWeight_backslash]
        omega
      · simp only [hw, weight_cons, weight_nil]
        omega

/-- What is written for a converted escape weighs less than the escape, and what
is written for one that is kept weighs the same. -/
theorem weight_decode_code (policy : Policy) (place : Place) (code : OctalCode) :
    weight (code.decode policy place) + (if code.isConverted policy then 1 else 0) ≤ 5 := by
  have hw := weight_write_le place code.char
  have hb : charWeight '[' = 0 ∧ charWeight ']' = 0 := by decide
  unfold OctalCode.decode
  by_cases hp : code.isPrintable = true
  · rw [if_pos hp]
    split <;> omega
  · rw [if_neg hp]
    cases policy with
    | preserve =>
        have hc : code.isConverted .preserve = false := by
          simpa [OctalCode.isConverted] using hp
        simp [hc]
    | bracket =>
        simp only [weight_append, weight_cons, weight_nil, weight_digits, hb.1, hb.2]
        split <;> omega
    | filter =>
        dsimp only
        by_cases hv : code.value ∈ [9, 10, 13]
        · rw [if_pos hv]
          split <;> omega
        · rw [if_neg hv, weight_nil]
          split <;> omega

/-! ## Texts that decoding keeps -/

section Count

variable (policy : Policy)

@[simp] theorem convertedCount_nil : convertedCount policy [] = 0 := rfl

@[simp] theorem convertedCount_pair (s : Text) :
    convertedCount policy ('\\' :: '\\' :: s) = convertedCount policy s := by
  simp [convertedCount, Token.isConverted]

@[simp] theorem convertedCount_lone : convertedCount policy ['\\'] = 0 := by
  simp [convertedCount, Token.isConverted]

@[simp] theorem convertedCount_code (code : OctalCode) (s : Text) :
    convertedCount policy ('\\' :: (code.digits ++ s)) =
      convertedCount policy s + if code.isConverted policy then 1 else 0 := by
  rw [convertedCount, tokens_code, List.countP_cons]
  rfl

theorem convertedCount_plain {c : Char} (hc : c ≠ '\\') (s : Text) :
    convertedCount policy (c :: s) = convertedCount policy s := by
  simp [convertedCount, tokens_plain hc, Token.isConverted]

theorem convertedCount_short {c : Char} {s : Text} (hc : c ≠ '\\')
    (h : ∀ code r, c :: s ≠ OctalCode.digits code ++ r) :
    convertedCount policy ('\\' :: c :: s) = convertedCount policy s := by
  simp [convertedCount, tokens_short hc h, Token.isConverted]

/-- The count of a text is that of its parts if the second starts with a character
that no escape takes in. -/
theorem convertedCount_append_cons {c : Char} (hc : c ≠ '\\') (ho : isOctalDigit c = false)
    (s t : Text) :
    convertedCount policy (s ++ c :: t) = convertedCount policy s + convertedCount policy t := by
  rw [← convertedCount_plain policy hc t]
  simp only [convertedCount, tokens_append_cons hc ho, List.countP_append]

end Count

/-- Decoding takes at least one off the weight for each escape it converts. -/
theorem weight_decode_add_convertedCount_le (policy : Policy) (place : Place) (s : Text) :
    weight (decode policy place s) + convertedCount policy s ≤ weight s := by
  induction s using reading_induction with
  | nil => simp
  | pair s ih =>
      simp only [decode_pair, convertedCount_pair, weight_cons]
      omega
  | code code s ih =>
      have hc := weight_decode_code policy place code
      simp only [decode_code, convertedCount_code, weight_append, weight_cons, weight_digits,
        charWeight_backslash]
      omega
  | short c s hc h ih =>
      rw [decode_short policy place hc h, convertedCount_short policy hc h]
      simp only [weight_cons]
      omega
  | lone => simp
  | plain c s hc ih =>
      rw [decode_plain policy place hc, convertedCount_plain policy hc]
      simp only [weight_cons]
      omega

/-- An escape that is not converted is written as it stands. -/
theorem OctalCode.decode_of_not_isConverted {policy : Policy} {code : OctalCode}
    (h : code.isConverted policy = false) (place : Place) :
    code.decode policy place = '\\' :: code.digits := by
  simp only [isConverted, Bool.or_eq_false_iff, bne_eq_false_iff_eq] at h
  obtain ⟨rfl, hp⟩ := h
  simp [decode, hp]

/-- Decoding keeps a text exactly if there is nothing to convert in it. -/
theorem decode_eq_self_iff {policy : Policy} {place : Place} {s : Text} :
    decode policy place s = s ↔ convertedCount policy s = 0 := by
  constructor
  · intro h
    have hw := weight_decode_add_convertedCount_le policy place s
    rw [h] at hw
    omega
  · intro h
    have ht : ∀ t ∈ tokens s, t.decode policy place = t.text := by
      intro t hm
      have hn := List.countP_eq_zero.mp h t hm
      cases t with
      | octal code =>
          exact OctalCode.decode_of_not_isConverted (by simpa [Token.isConverted] using hn) place
      | backslashes => rfl
      | plain c => rfl
    rw [decode, List.flatMap_def, List.map_congr_left ht, ← List.flatMap_def,
      flatMap_text_tokens]

/-! ## Escapes that decoding completes -/

/-- The text starts with the digits of an escape that the policy converts. -/
def startsConverted (policy : Policy) : Text → Bool
  | a :: b :: c :: _ => (OctalCode.ofChars? a b c).any (OctalCode.isConverted policy)
  | _ => false

/-- Among the tokens is a backslash that stands before fewer than three octal
digits, but before the digits of an escape that the policy converts once the
tokens after it are decoded for a literal. -/
def completes (policy : Policy) : List Token → Bool
  | [] => false
  | .plain '\\' :: ts =>
    startsConverted policy (ts.flatMap (Token.decode policy .quoted)) || completes policy ts
  | _ :: ts => completes policy ts

theorem completes_plain {c : Char} (hc : c ≠ '\\') (policy : Policy) (ts : List Token) :
    completes policy (.plain c :: ts) = completes policy ts := by
  rw [completes]
  intro h
  exact hc (Token.plain.inj h)

/-- What is written for an escape adds nothing to convert to the text after it. -/
theorem OctalCode.Written.convertedCount_append {policy : Policy} {code : OctalCode} {w : Text}
    (h : code.Written policy w) (s : Text) :
    convertedCount policy (w ++ s) = convertedCount policy s := by
  have hd (d : OctalDigit) (s : Text) :
      convertedCount policy (d.char :: s) = convertedCount policy s :=
    convertedCount_plain policy d.char_ne_backslash s
  cases h with
  | mnemonic d hm =>
      by_cases hb : d = '\\'
      · subst hb
        exact convertedCount_pair policy s
      · have ho : isOctalDigit d = false := by
          simp only [List.mem_cons, List.not_mem_nil, or_false] at hm
          rcases hm with rfl | rfl | rfl | rfl | rfl <;> decide
        exact convertedCount_short policy hb fun code r => cons_ne_digits_append ho code r s
  | single c hc =>
      exact convertedCount_plain policy (fun h => hc (by simp [h])) s
  | kept hk => simp [hk]
  | bracketed =>
      simp only [OctalCode.digits, List.cons_append, List.nil_append]
      rw [convertedCount_plain policy (by decide), hd, hd, hd,
        convertedCount_plain policy (by decide)]
  | dropped => rfl

/-- The text starts with the digits of a converted escape exactly if the policy
converts the escape that a backslash before it makes. -/
theorem startsConverted_digits_append (policy : Policy) (code : OctalCode) (s : Text) :
    startsConverted policy (code.digits ++ s) = code.isConverted policy := by
  have hc : OctalCode.ofChars? code.high.char code.mid.char code.low.char = some code :=
    OctalCode.ofChars?_eq_some_iff.mpr rfl
  simp [startsConverted, OctalCode.digits, hc]

theorem startsConverted_of_ne {s : Text} (h : ∀ code r, s ≠ OctalCode.digits code ++ r)
    (policy : Policy) : startsConverted policy s = false := by
  unfold startsConverted
  split
  · next a b c r =>
    cases ho : OctalCode.ofChars? a b c with
    | none => rfl
    | some code =>
        have hd := OctalCode.ofChars?_eq_some_iff.mp ho
        exact absurd (congrArg (· ++ r) hd) (h code r)
  · rfl

/-- A text with a backslash before a character that is no backslash: there is
nothing to convert in it exactly if the backslash starts no converted escape and
there is nothing to convert after the character. -/
theorem convertedCount_backslash_cons_eq_zero_iff {c : Char} (hc : c ≠ '\\') (policy : Policy)
    (s : Text) : convertedCount policy ('\\' :: c :: s) = 0 ↔
      startsConverted policy (c :: s) = false ∧ convertedCount policy s = 0 := by
  rcases startsCode_or (c :: s) with ⟨code, r, he⟩ | hn
  · have hs : convertedCount policy s = convertedCount policy r := by
      have hcs : c :: s = code.high.char :: code.mid.char :: code.low.char :: r := he
      rw [(List.cons.inj hcs).2, convertedCount_plain policy (OctalDigit.char_ne_backslash _),
        convertedCount_plain policy (OctalDigit.char_ne_backslash _)]
    rw [hs, he, convertedCount_code, startsConverted_digits_append]
    cases code.isConverted policy <;> simp
  · rw [convertedCount_short policy hc hn, startsConverted_of_ne hn]
    simp

/-- A text that was decoded for a literal holds nothing to convert exactly if
the decoding completed no escape. -/
theorem convertedCount_decode_eq_zero_iff (policy : Policy) (s : Text) :
    convertedCount policy (decode policy .quoted s) = 0 ↔ completes policy (tokens s) = false := by
  induction s using reading_induction with
  | nil => simp [completes]
  | pair s ih => simpa [completes] using ih
  | code code s ih =>
      rw [decode_code, (written_decode policy code).convertedCount_append, ih, tokens_code]
      rfl
  | short c s hc h ih =>
      have hd : (Token.plain c :: tokens s).flatMap (Token.decode policy .quoted) =
          c :: decode policy .quoted s := rfl
      rw [decode_short policy .quoted hc h, convertedCount_backslash_cons_eq_zero_iff hc, ih,
        tokens_short hc h, completes, hd, completes_plain hc, Bool.or_eq_false_iff]
  | lone => simp [completes, startsConverted]
  | plain c s hc ih =>
      rw [decode_plain policy .quoted hc, convertedCount_plain policy hc, ih, tokens_plain hc,
        completes_plain hc]

/-- **Second decoding**: a text that was decoded for a literal is kept by
decoding it again exactly if the first decoding completed no escape. -/
theorem decode_decode_eq_self_iff (policy : Policy) (s : Text) :
    decode policy .quoted (decode policy .quoted s) = decode policy .quoted s ↔
      completes policy (tokens s) = false :=
  decode_eq_self_iff.trans (convertedCount_decode_eq_zero_iff policy s)

end LuaReveal.Escape
