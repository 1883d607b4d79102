import LuaReveal.Proofs.Literal.Units

/-!
# LuaReveal.Proofs.Literal.Meaning

What the body of a literal stands for, lexeme by lexeme, and what decoding does
to it.  A decoded body is read anew from its left, so the digits that decoding
writes could be taken for those of an escape before them.  They are not if no
escape of the body has fewer than three octal digits: then decoding changes the
meaning only where a code is not printable, as the policy says
(`meaning_requote`).
-/

namespace LuaReveal.Literal

open Escape (OctalCode OctalDigit Place)

/-! ## Meanings -/

/-- What a lexeme stands for. -/
inductive Meaning where
  /-- A character. -/
  | char (c : Char)
  /-- A code that is not printable. -/
  | code (code : OctalCode)
  /-- A backslash and a character that make no known escape. -/
  | pair (c : Char)
  deriving DecidableEq

/-- What an octal escape stands for: a printable code is the same as its
character. -/
def Meaning.ofCode (code : OctalCode) : Meaning :=
  if code.isPrintable then .char code.char else .code code

/-- What a backslash and `c` stand for. -/
def Meaning.ofEscaped (c : Char) : Meaning :=
  match c with
  | '\\' => .char '\\'
  | '"' => .char '"'
  | 'n' => .char '\n'
  | 't' => .char '\t'
  | 'r' => .char '\r'
  | c => .pair c

/-- What a lexeme stands for. -/
def Lexeme.meaning : Lexeme → Meaning
  | octal code => .ofCode code
  | unit (.escaped c) => .ofEscaped c
  | unit (.single c) => .char c

/-- What the lexemes of a text stand for, in order. -/
def meaning (s : Text) : List Meaning :=
  (lexemes (units s)).map Lexeme.meaning

/-- What a policy makes of a meaning: only codes that are not printable can change. -/
def Meaning.under (policy : Escape.Policy) : Meaning → List Meaning
  | code o =>
    match policy with
    | .preserve => [code o]
    | .bracket => ('[' :: o.digits ++ [']']).map char
    | .filter => if o.value ∈ [9, 10, 13] then [char o.char] else []
  | m => [m]

/-- The lexeme is an escape that starts with an octal digit and does not have three
of them. -/
def Lexeme.isShort : Lexeme → Bool
  | unit (.escaped c) => Escape.isOctalDigit c
  | _ => false

/-- Every escape of a text that starts with an octal digit has three of them. -/
def ShortFree (s : Text) : Prop :=
  ∀ l ∈ lexemes (units s), l.isShort = false

instance : DecidablePred ShortFree := fun s =>
  inferInstanceAs (Decidable (∀ l ∈ lexemes (units s), l.isShort = false))

/-! ## One lexeme -/

@[simp] theorem meaning_code (code : OctalCode) (s : Text) :
    meaning ('\\' :: (code.digits ++ s)) = .ofCode code :: meaning s := by
  simp [meaning, Lexeme.meaning]

/-- An escaped character that is no octal digit stands for itself, whatever comes
after it. -/
theorem meaning_escaped {c : Char} (hc : Escape.isOctalDigit c = false) (s : Text) :
    meaning ('\\' :: c :: s) = .ofEscaped c :: meaning s := by
  have hn : ∀ code r, c :: s ≠ OctalCode.digits code ++ r := fun code r =>
    Escape.cons_ne_digits_append hc code r s
  rw [meaning, lexemes_units_escaped hn]
  rfl

theorem meaning_single {c : Char} (hc : c ≠ '\\') (s : Text) :
    meaning (c :: s) = .char c :: meaning s := by
  rw [meaning, units_single hc, lexemes_single]
  rfl

/-- Characters other than backslashes stand for themselves. -/
theorem meaning_append_of_notMem {w : Text} (hw : '\\' ∉ w) (s : Text) :
    meaning (w ++ s) = w.map .char ++ meaning s := by
  induction w with
  | nil => rfl
  | cons c w ih =>
      obtain ⟨hc, hw⟩ := List.ne_and_not_mem_of_not_mem_cons hw
      rw [List.cons_append, meaning_single (Ne.symm hc), ih hw]
      rfl

/-- A character that is written for a literal stands for itself. -/
theorem meaning_write_append (c : Char) (s : Text) :
    meaning (Place.quoted.write c ++ s) = .char c :: meaning s := by
  rcases Escape.write_quoted_cases c with ⟨d, hd, hm, hw⟩ | ⟨hc, hw⟩
  · have ho : Escape.isOctalDigit d = false ∧ Meaning.ofEscaped d = .char c := by
      simp only [List.mem_cons, List.not_mem_nil, or_false] at hd
      rcases hd with rfl | rfl | rfl | rfl | rfl <;>
        exact ⟨by decide, congrArg Meaning.char (Option.some.inj hm)⟩
    rw [hw, ← ho.2]
    exact meaning_escaped ho.1 s
  · rw [hw]
    exact meaning_single (fun hb => hc (by simp [hb])) s

/-- What is written for an escape stands for what the policy makes of its
meaning. -/
theorem meaning_decode_code_append (policy : Escape.Policy) (code : OctalCode) (s : Text) :
    meaning (code.decode policy .quoted ++ s) =
      (Meaning.ofCode code).under policy ++ meaning s := by
  unfold OctalCode.decode Meaning.ofCode
  by_cases hp : code.isPrintable = true
  · rw [if_pos hp, if_pos hp]
    exact meaning_write_append code.char s
  rw [if_neg hp, if_neg hp]
  cases policy with
  | preserve =>
      have hm : Meaning.ofCode code = .code code := if_neg hp
      rw [List.cons_append, meaning_code, hm]
      rfl
  | bracket =>
      have hb : '\\' ∉ '[' :: code.digits ++ [']'] := by
        simp [OctalCode.digits, Ne.symm (OctalDigit.char_ne_backslash _)]
      exact meaning_append_of_notMem hb s
  | filter =>
      by_cases hv : code.value ∈ [9, 10, 13]
      · simp only [Meaning.under, if_pos hv]
        exact meaning_write_append code.char s
      · simp only [Meaning.under, if_neg hv, List.nil_append]

/-! ## Decoding -/

/-- Where no lexeme is a short octal escape, decoding changes the meaning as the
policy says. -/
theorem meaning_decode {s : Text} (h : ShortFree s) (policy : Escape.Policy) :
    meaning (Escape.decode policy .quoted s) = (meaning s).flatMap (Meaning.under policy) := by
  induction s using Escape.reading_induction with
  | nil => rfl
  | pair s ih =>
      have hn : ∀ code r, '\\' :: s ≠ OctalCode.digits code ++ r := fun code r =>
        Escape.cons_ne_digits_append (by decide) code r s
      have hs : ShortFree s := fun l hl =>
        h l (by rw [lexemes_units_escaped hn]; exact List.mem_cons_of_mem _ hl)
      rw [Escape.decode_pair, meaning_escaped (by decide), ih hs, meaning_escaped (by decide)]
      rfl
  | code code s ih =>
      have hs : ShortFree s := fun l hl =>
        h l (by rw [lexemes_units_code]; exact List.mem_cons_of_mem _ hl)
      rw [Escape.decode_code, meaning_decode_code_append, ih hs, meaning_code, List.flatMap_cons]
  | short c s hc hn ih =>
      have hu : lexemes (units ('\\' :: c :: s)) = .unit (.escaped c) :: lexemes (units s) :=
        lexemes_units_escaped hn
      have ho : Escape.isOctalDigit c = false :=
        h (.unit (.escaped c)) (by rw [hu]; exact List.mem_cons_self)
      have hs : ShortFree s := fun l hl => h l (by rw [hu]; exact List.mem_cons_of_mem _ hl)
      rw [Escape.decode_short policy .quoted hc hn, meaning_escaped ho, ih hs, meaning_escaped ho]
      have hm : (Meaning.ofEscaped c).under policy = [.ofEscaped c] := by
        unfold Meaning.ofEscaped
        split <;> rfl
      rw [List.flatMap_cons, hm]
      rfl
  | lone => rfl
  | plain c s hc ih =>
      have hs : ShortFree s := fun l hl =>
        h l (by rw [units_single hc, lexemes_single]; exact List.mem_cons_of_mem _ hl)
      rw [Escape.decode_plain policy .quoted hc, meaning_single hc, ih hs, meaning_single hc]
      rfl

/-- Nothing changes under the policy that preserves codes. -/
theorem flatMap_under_preserve (ms : List Meaning) :
    ms.flatMap (Meaning.under .preserve) = ms := by
  have h : Meaning.under .preserve = fun m => [m] := by
    funext m
    cases m <;> rfl
  rw [h]
  exact List.flatMap_singleton' ms

/-- **Meaning of a decoded literal**: where every escape that starts with an octal
digit has three of them, the literal that is written for a body stands for what
the policy makes of the body's meaning, in the same order.  Under `preserve` it
stands for what the body does. -/
theorem meaning_requote {body : Text} (h : ShortFree body) (policy : Escape.Policy) :
    meaning (unquote (requote policy body)) = (meaning body).flatMap (Meaning.under policy) ∧
      meaning (unquote (requote .preserve body)) = meaning body := by
  rw [requote, requote, unquote_quote, unquote_quote]
  exact ⟨meaning_decode h policy, by rw [meaning_decode h, flatMap_under_preserve]⟩

/-- A body in which codes that are not printable stand before a decoded digit and
before a tab that is left as a character. -/
theorem meaning_requote_filter :
    let body := "\\n\\0010\\001\\060\\011\\134\\\\101\\x".toList
    ShortFree body ∧
      meaning (unquote (requote .filter body)) = (meaning body).flatMap (Meaning.under .filter) ∧
      meaning (unquote (requote .preserve body)) = meaning body :=
  have h : ShortFree "\\n\\0010\\001\\060\\011\\134\\\\101\\x".toList := by decide
  ⟨h, meaning_requote h .filter⟩

end LuaReveal.Literal
