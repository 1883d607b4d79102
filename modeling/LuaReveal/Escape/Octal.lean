import LuaReveal.Escape.Policy

/-!
# LuaReveal.Escape.Octal

Octal escapes: a backslash and three digits from 0 to 7. A text is read from the
left as tokens, where two backslashes are one token, so the second of them
starts no escape. Decoding writes each token anew under a policy.
-/

namespace LuaReveal.Escape

/-! ## Octal codes -/

/-- A digit from 0 to 7. -/
abbrev OctalDigit := Fin 8

/-- The character of an octal digit. -/
def OctalDigit.char (d : OctalDigit) : Char :=
  Char.ofNat (48 + d.val)

/-- The octal digit that a character writes. -/
def OctalDigit.ofChar? (c : Char) : Option OctalDigit :=
  if '0' ≤ c ∧ c ≤ '7' then some (Fin.ofNat 8 (c.toNat - 48)) else none

/-- A character writes an octal digit exactly if it is that digit's character. -/
theorem OctalDigit.ofChar?_eq_some_iff {c : Char} {d : OctalDigit} :
    OctalDigit.ofChar? c = some d ↔ c = d.char := by
  constructor
  · intro h
    simp only [ofChar?] at h
    split at h
    · next hc =>
      obtain ⟨h₁, h₂⟩ := hc
      have h₁ : 48 ≤ c.toNat := h₁
      have h₂ : c.toNat ≤ 55 := h₂
      obtain rfl := Option.some.inj h
      have hv : 48 + (Fin.ofNat 8 (c.toNat - 48)).val = c.toNat := by
        simp only [Fin.ofNat]
        omega
      rw [OctalDigit.char, hv, Char.ofNat_toNat]
    · simp at h
  · rintro rfl
    revert d
    decide

/-- The code of an octal escape, digit by digit. -/
structure OctalCode where
  high : OctalDigit
  mid : OctalDigit
  low : OctalDigit
  deriving DecidableEq

namespace OctalCode

/-- The code as a number, from 0 to 511. -/
def value (o : OctalCode) : Nat :=
  64 * o.high.val + 8 * o.mid.val + o.low.val

/-- The three digits of the code. -/
def digits (o : OctalCode) : Text :=
  [o.high.char, o.mid.char, o.low.char]

/-- The code is that of a printable character of ASCII, a space included. -/
def isPrintable (o : OctalCode) : Bool :=
  32 ≤ o.value && o.value ≤ 126

/-- The character with the code. -/
def char (o : OctalCode) : Char :=
  Char.ofNat o.value

/-- The code that three characters write. -/
def ofChars? (a b c : Char) : Option OctalCode :=
  match OctalDigit.ofChar? a, OctalDigit.ofChar? b, OctalDigit.ofChar? c with
  | some high, some mid, some low => some ⟨high, mid, low⟩
  | _, _, _ => none

/-- Three characters write a code exactly if they are its digits. -/
theorem ofChars?_eq_some_iff {a b c : Char} {o : OctalCode} :
    ofChars? a b c = some o ↔ [a, b, c] = o.digits := by
  simp only [digits, List.cons.injEq, and_true, ← OctalDigit.ofChar?_eq_some_iff]
  cases ha : OctalDigit.ofChar? a <;> cases hb : OctalDigit.ofChar? b <;>
    cases hc : OctalDigit.ofChar? c <;> simp [ofChars?, ha, hb, hc]
  cases o
  simp

end OctalCode

/-! ## Tokens -/

/-- A unit of a text as the decoder reads it. -/
inductive Token where
  /-- Two backslashes. -/
  | backslashes
  /-- A backslash and three octal digits. -/
  | octal (code : OctalCode)
  /-- Any other character by itself. -/
  | plain (c : Char)
  deriving DecidableEq

namespace Token

/-- The text of a token. -/
def text : Token → Text
  | backslashes => ['\\', '\\']
  | octal code => '\\' :: code.digits
  | plain c => [c]

/-- The token is an octal escape. -/
def isOctal : Token → Bool
  | octal _ => true
  | _ => false

end Token

/-- The tokens of a text, from left to right. -/
def tokens : Text → List Token
  | [] => []
  | '\\' :: '\\' :: s => .backslashes :: tokens s
  | '\\' :: a :: b :: c :: s =>
    match OctalCode.ofChars? a b c with
    | some code => .octal code :: tokens s
    | none => .plain '\\' :: tokens (a :: b :: c :: s)
  | c :: s => .plain c :: tokens s

/-- The tokens make up the text. -/
@[simp] theorem flatMap_text_tokens (s : Text) : (tokens s).flatMap Token.text = s := by
  fun_induction tokens s with
  | case1 => rfl
  | case2 s ih => simp [Token.text, ih]
  | case3 a b c s _ code h ih =>
    have := OctalCode.ofChars?_eq_some_iff.mp h
    simp [Token.text, ih, ← this]
  | case4 a b c s _ h ih => simp [Token.text, ih]
  | case5 c s _ _ ih => simp [Token.text, ih]

/-! ## Decoding -/

/-- Where a decoded text stands: by itself, or between the quotes of a literal,
where a quote and a backslash need a backslash before them. -/
inductive Place where
  | bare
  | quoted
  deriving DecidableEq

/-- A character as it is written at a place. -/
def Place.write (place : Place) (c : Char) : Text :=
  match place with
  | .bare => [c]
  | .quoted =>
    if c = '"' ∨ c = '\\' then ['\\', c]
    else if c = '\n' then ['\\', 'n']
    else if c = '\t' then ['\\', 't']
    else if c = '\r' then ['\\', 'r']
    else [c]

/-- What the decoder writes for an octal escape. -/
def OctalCode.decode (policy : Policy) (place : Place) (o : OctalCode) : Text :=
  if o.isPrintable then place.write o.char
  else
    match policy with
    | .preserve => '\\' :: o.digits
    | .bracket => '[' :: o.digits ++ [']']
    | .filter => if o.value ∈ [9, 10, 13] then place.write o.char else []

/-- What the decoder writes for a token. -/
def Token.decode (policy : Policy) (place : Place) : Token → Text
  | .octal code => code.decode policy place
  | t => t.text

/-- The text with its octal escapes decoded for a place. -/
def decode (policy : Policy) (place : Place) (s : Text) : Text :=
  (tokens s).flatMap (Token.decode policy place)

/-! ## Counting -/

/-- The policy writes the escape in another way: one that is not printable stays
under `preserve`. -/
def OctalCode.isConverted (policy : Policy) (o : OctalCode) : Bool :=
  policy != .preserve || o.isPrintable

/-- The token is an octal escape that the policy writes in another way. -/
def Token.isConverted (policy : Policy) : Token → Bool
  | .octal code => code.isConverted policy
  | _ => false

/-- The number of octal escapes in a text. -/
def octalCount (s : Text) : Nat :=
  (tokens s).countP Token.isOctal

/-- The number of octal escapes in a text that the policy writes in another way. -/
def convertedCount (policy : Policy) (s : Text) : Nat :=
  (tokens s).countP (Token.isConverted policy)

end LuaReveal.Escape
