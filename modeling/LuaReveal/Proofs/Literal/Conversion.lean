import LuaReveal.Proofs.Escape.Repetition
import LuaReveal.Proofs.Literal.Body

/-!
# LuaReveal.Proofs.Literal.Conversion

The count of converted escapes and the decoder agree on every text, be it decoded
by itself or for a literal (`convertedCount_eq_zero_iff`).  A text is its own
decoding exactly if the count is zero, and so a literal without octal escapes
need not be decoded at all.

Under `preserve` the count can be read off the lengths: one character takes the
place of the four of each converted escape, and nothing else changes
(`length_decode_preserve`).
-/

namespace LuaReveal.Escape

/-! ## Escapes and converted escapes -/

/-- Only octal escapes are converted. -/
theorem Token.isOctal_of_isConverted {policy : Policy} {t : Token}
    (h : t.isConverted policy = true) : t.isOctal = true := by
  cases t with
  | octal code => rfl
  | backslashes => contradiction
  | plain c => contradiction

/-- There are no more converted escapes than escapes. -/
theorem convertedCount_le_octalCount (policy : Policy) (s : Text) :
    convertedCount policy s ≤ octalCount s :=
  List.countP_mono_left fun _ _ => Token.isOctal_of_isConverted

/-! ## Lengths under `preserve` -/

/-- A converted escape is written as one character, and a kept one has its four. -/
theorem OctalCode.length_decode_preserve (code : OctalCode) :
    (code.decode .preserve .bare).length + 3 * (if code.isConverted .preserve then 1 else 0) =
      4 := by
  cases hp : code.isPrintable with
  | true => simp [decode, isConverted, Place.write, hp]
  | false => simp [decode, isConverted, digits, hp]

/-- Under `preserve` a text loses three characters for each escape that is converted. -/
theorem length_decode_preserve (s : Text) :
    s.length = (decode .preserve .bare s).length + 3 * convertedCount .preserve s := by
  induction s using reading_induction with
  | nil => rfl
  | pair s ih =>
      simp only [decode_pair, convertedCount_pair, List.length_cons]
      omega
  | code code s ih =>
      have hc := code.length_decode_preserve
      have hd : code.digits.length = 3 := rfl
      simp only [decode_code, convertedCount_code, List.length_cons, List.length_append]
      omega
  | short c s hc hn ih =>
      rw [decode_short .preserve .bare hc hn, convertedCount_short .preserve hc hn]
      simp only [List.length_cons]
      omega
  | lone => simp
  | plain c s hc ih =>
      rw [decode_plain .preserve .bare hc, convertedCount_plain .preserve hc]
      simp only [List.length_cons]
      omega

end LuaReveal.Escape

namespace LuaReveal.Literal

open Escape (convertedCount decode octalCount)

/-- A literal keeps its body exactly if there is nothing to convert in it. -/
theorem requote_eq_quote_iff {policy : Escape.Policy} {body : Text} :
    requote policy body = quote body ↔ convertedCount policy body = 0 := by
  rw [requote, quote_inj]
  exact Escape.decode_eq_self_iff

/-- A literal without octal escapes is what decoding makes of it. -/
theorem requote_of_octalCount_eq_zero {body : Text} (h : octalCount body = 0)
    (policy : Escape.Policy) : requote policy body = quote body := by
  have hle := Escape.convertedCount_le_octalCount policy body
  exact requote_eq_quote_iff.mpr (by omega)

/-- **Counting and decoding agree**: a text has no converted escapes exactly if
decoding keeps it, by itself or for a literal.  A literal may be left as it is if
there is no octal escape in it.  Under `preserve` each converted escape makes a text
three characters shorter. -/
theorem convertedCount_eq_zero_iff (policy : Escape.Policy) (s : Text) :
    (convertedCount policy s = 0 ↔ decode policy .bare s = s) ∧
      (convertedCount policy s = 0 ↔ requote policy s = quote s) ∧
      (if octalCount s = 0 then quote s else requote policy s) = requote policy s ∧
      s.length = (decode .preserve .bare s).length + 3 * convertedCount .preserve s := by
  refine ⟨Escape.decode_eq_self_iff.symm, requote_eq_quote_iff.symm, ?_,
    Escape.length_decode_preserve s⟩
  by_cases h : octalCount s = 0
  · rw [if_pos h, requote_of_octalCount_eq_zero h]
  · rw [if_neg h]

/-- A decoded backslash can make the text that was there before, in another place. -/
example :
    let s := "\\134101\\101\\001".toList
    decode .preserve .bare s = "\\101A\\001".toList ∧ convertedCount .preserve s = 2 ∧
      s.length = 15 ∧ (decode .preserve .bare s).length = 9 := by
  decide +kernel

end LuaReveal.Literal
