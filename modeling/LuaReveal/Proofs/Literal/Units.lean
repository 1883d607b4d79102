import LuaReveal.Proofs.Literal.Body

/-!
# LuaReveal.Proofs.Literal.Units

A text as its sequence of units: a backslash with the character after it, or one
character by itself.  Nothing of the text is lost in them (`flatMap_text_units`).
Units are gathered into lexemes, where the three units of an octal escape are
one, and decoding rewrites the lexemes one by one (`units_decode`).  So the
decoder and the reader of literals agree on which backslash belongs to which
character, and what is written for a body is one literal again
(`units_requote`).
-/

namespace LuaReveal.Literal

open Escape (OctalCode OctalDigit)

/-! ## Units -/

/-- A unit of a text. -/
inductive BodyUnit where
  /-- A backslash and the character after it. -/
  | escaped (c : Char)
  /-- A character by itself. -/
  | single (c : Char)
  deriving DecidableEq

/-- The text of a unit. -/
def BodyUnit.text : BodyUnit → Text
  | escaped c => ['\\', c]
  | single c => [c]

/-- The units of a text, from left to right.  A backslash that the text ends with
is one by itself. -/
def units : Text → List BodyUnit
  | [] => []
  | '\\' :: c :: s => .escaped c :: units s
  | c :: s => .single c :: units s

@[simp] theorem units_nil : units [] = [] := rfl

@[simp] theorem units_lone : units ['\\'] = [.single '\\'] := by
  simp [units]

@[simp] theorem units_escaped (c : Char) (s : Text) :
    units ('\\' :: c :: s) = .escaped c :: units s := by
  simp [units]

theorem units_single {c : Char} (hc : c ≠ '\\') (s : Text) :
    units (c :: s) = .single c :: units s := by
  rw [units]
  exact fun d r h => absurd h hc

/-- The units make up the text. -/
@[simp] theorem flatMap_text_units (s : Text) : (units s).flatMap BodyUnit.text = s := by
  fun_induction units s with
  | case1 => rfl
  | case2 c s ih => simp [BodyUnit.text, ih]
  | case3 c s _ ih => simp [BodyUnit.text, ih]

section Body

variable {reach : Reach} {body : Text}

/-- No unit of a body reaches over its end. -/
theorem Body.units_append (h : Body reach body) (rest : Text) :
    units (body ++ rest) = units body ++ units rest := by
  induction h with
  | nil => rfl
  | escaped _ _ ih =>
      rw [List.cons_append, List.cons_append, units_escaped, units_escaped, ih]
      rfl
  | single hc _ ih =>
      have hb := (Reach.admits_iff.mp hc).2.1
      rw [List.cons_append, units_single hb, units_single hb, ih]
      rfl

/-- A body has no quote that is a unit by itself. -/
theorem Body.quote_notMem_units (h : Body reach body) : .single '"' ∉ units body := by
  induction h with
  | nil => simp
  | escaped _ _ ih => simpa using ih
  | single hc _ ih =>
      obtain ⟨hq, hb, _⟩ := Reach.admits_iff.mp hc
      rw [units_single hb]
      simpa using ⟨Ne.symm hq, ih⟩

/-- The units of a literal are its quotes and, between them, those of its body. -/
theorem Body.units_quote (h : Body reach body) :
    units (quote body) = .single '"' :: units body ++ [.single '"'] := by
  rw [quote, units_single (by decide), h.units_append, units_single (by decide)]
  rfl

end Body

/-! ## Lexemes -/

/-- A lexeme of a text: an octal escape, or any other unit by itself. -/
inductive Lexeme where
  | octal (code : OctalCode)
  | unit (u : BodyUnit)
  deriving DecidableEq

/-- The lexemes that units make up, from left to right: an escaped octal digit and
two more octal digits after it are an octal escape. -/
def lexemes : List BodyUnit → List Lexeme
  | [] => []
  | .escaped a :: .single b :: .single c :: us =>
    match OctalCode.ofChars? a b c with
    | some code => .octal code :: lexemes us
    | none => .unit (.escaped a) :: lexemes (.single b :: .single c :: us)
  | u :: us => .unit u :: lexemes us

@[simp] theorem lexemes_nil : lexemes [] = [] := rfl

@[simp] theorem lexemes_single (c : Char) (us : List BodyUnit) :
    lexemes (.single c :: us) = .unit (.single c) :: lexemes us := by
  simp [lexemes]

/-- The units of an octal escape are one lexeme. -/
@[simp] theorem lexemes_units_code (code : OctalCode) (s : Text) :
    lexemes (units ('\\' :: (code.digits ++ s))) = .octal code :: lexemes (units s) := by
  have hc : OctalCode.ofChars? code.high.char code.mid.char code.low.char = some code :=
    OctalCode.ofChars?_eq_some_iff.mpr rfl
  have hu : units ('\\' :: (code.digits ++ s)) =
      .escaped code.high.char :: .single code.mid.char :: .single code.low.char :: units s := by
    simp only [OctalCode.digits, List.cons_append, List.nil_append, units_escaped]
    rw [units_single code.mid.char_ne_backslash, units_single code.low.char_ne_backslash]
  rw [hu, lexemes, hc]

/-- An escaped character that starts no three octal digits is a lexeme by
itself. -/
theorem lexemes_units_escaped {c : Char} {s : Text}
    (h : ∀ code r, c :: s ≠ OctalCode.digits code ++ r) :
    lexemes (units ('\\' :: c :: s)) = .unit (.escaped c) :: lexemes (units s) := by
  rw [units_escaped]
  match hu : units s with
  | .single a :: .single b :: us =>
      have hs : s = a :: b :: us.flatMap BodyUnit.text := by
        rw [← flatMap_text_units s, hu]
        rfl
      have hn : OctalCode.ofChars? c a b = none := by
        cases ho : OctalCode.ofChars? c a b with
        | none => rfl
        | some code =>
            have hd : c :: s = code.digits ++ us.flatMap BodyUnit.text := by
              rw [hs, ← OctalCode.ofChars?_eq_some_iff.mp ho]
              rfl
            exact absurd hd (h code _)
      rw [lexemes, hn]
  | [] | [.single _] | .escaped _ :: _ | .single _ :: .escaped _ :: _ => simp [lexemes]

/-! ## Decoding -/

/-- The units that the decoder writes for a lexeme. -/
def Lexeme.decode (policy : Escape.Policy) : Lexeme → List BodyUnit
  | octal code => units (code.decode policy .quoted)
  | unit u => [u]

/-- Decoding writes the lexemes of a text one by one: the units of each octal
escape are replaced, and every other unit stays. -/
theorem units_decode (policy : Escape.Policy) (s : Text) :
    units (Escape.decode policy .quoted s) =
      (lexemes (units s)).flatMap (Lexeme.decode policy) := by
  induction s using Escape.reading_induction with
  | nil => rfl
  | pair s ih =>
      have hn : ∀ code r, '\\' :: s ≠ OctalCode.digits code ++ r := fun code r =>
        Escape.cons_ne_digits_append (by decide) code r s
      rw [Escape.decode_pair, units_escaped, ih, lexemes_units_escaped hn]
      rfl
  | code code s ih =>
      have hb : Body .lines (code.decode policy .quoted) :=
        body_of_written (Escape.written_decode policy code)
      rw [Escape.decode_code, hb.units_append, ih, lexemes_units_code]
      rfl
  | short c s hc hn ih =>
      rw [Escape.decode_short policy .quoted hc hn, units_escaped, ih, lexemes_units_escaped hn]
      rfl
  | lone => simp [Lexeme.decode]
  | plain c s hc ih =>
      rw [Escape.decode_plain policy .quoted hc, units_single hc, ih, units_single hc,
        lexemes_single]
      rfl

/-! ## Literals -/

/-- A literal without its quotes. -/
def unquote (literal : Text) : Text :=
  literal.tail.dropLast

@[simp] theorem unquote_quote (body : Text) : unquote (quote body) = body := by
  simp [unquote, quote]

/-- **Decoded literals**: the literal that is written for a body is read as the
units of the body, where those of each octal escape are replaced by what is
written for it.  Its first and its last character are its only quotes that are
not escaped, so it is one literal, and it stays on one line if the body does. -/
theorem units_requote {body : Text} (h : Body .lines body) (policy : Escape.Policy) :
    let decoded := (lexemes (units body)).flatMap (Lexeme.decode policy)
    units (unquote (requote policy body)) = decoded ∧
      units (requote policy body) = .single '"' :: decoded ++ [.single '"'] ∧
      .single '"' ∉ decoded ∧
      (∃ inner, Body .lines inner ∧ requote policy body = quote inner) ∧
      ('\n' ∉ body → '\n' ∉ requote policy body) := by
  intro decoded
  have hd : Body .lines (Escape.decode policy .quoted body) := h.decode
  have hu : units (Escape.decode policy .quoted body) = decoded := units_decode policy body
  refine ⟨?_, ?_, ?_, ⟨_, hd, rfl⟩, ?_⟩
  · rw [requote, unquote_quote, hu]
  · rw [requote, hd.units_quote, hu]
  · rw [← hu]
    exact hd.quote_notMem_units
  · intro hn
    have hl : Body .line (Escape.decode policy .quoted body) :=
      (h.line_of_newline_notMem hn).decode
    simpa [requote, quote] using hl.newline_notMem

/-- A body with an escaped quote, a decoded quote and backslash, an escape that is
left out, two backslashes before digits, and a short escape at its end. -/
theorem units_requote_mixed :
    let body := "a\\\"\\042\\134\\001\\\\101\\1".toList
    let decoded := (lexemes (units body)).flatMap (Lexeme.decode .filter)
    Body .lines body ∧ units (unquote (requote .filter body)) = decoded ∧
      units (requote .filter body) = .single '"' :: decoded ++ [.single '"'] ∧
      .single '"' ∉ decoded ∧
      (∃ inner, Body .lines inner ∧ requote .filter body = quote inner) ∧
      ('\n' ∉ body → '\n' ∉ requote .filter body) :=
  have h : Body .lines "a\\\"\\042\\134\\001\\\\101\\1".toList := by decide
  ⟨h, units_requote h .filter⟩

end LuaReveal.Literal
