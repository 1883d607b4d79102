import LuaReveal.Literal
import LuaReveal.Proofs.Escape.Reading

/-!
# LuaReveal.Proofs.Literal.Body

The bodies of literals as a predicate.  `Body reach` is exactly what `readBody?`
reads up to a closing quote (`readBody?_eq_some_iff`), bodies can be put
together (`Body.append`), and decoding for a literal makes a body of a body
(`Body.decode`).  So the literal around a decoded body ends at its own quote,
whatever stands after it.
-/

namespace LuaReveal.Literal

open Escape (OctalCode OctalDigit)

/-! ## Bodies -/

/-- The texts that may stand between the quotes of a literal, unit by unit. -/
inductive Body (reach : Reach) : Text → Prop
  | nil : Body reach []
  /-- A backslash and any character but a line feed. -/
  | escaped {c : Char} {s : Text} (hc : c ≠ '\n') (hs : Body reach s) :
      Body reach ('\\' :: c :: s)
  /-- A character that may stand by itself. -/
  | single {c : Char} {s : Text} (hc : reach.admits c = true) (hs : Body reach s) :
      Body reach (c :: s)

/-- A character that may stand by itself is no quote and no backslash, and no
line feed in a literal on one line. -/
theorem Reach.admits_iff {reach : Reach} {c : Char} :
    reach.admits c = true ↔ c ≠ '"' ∧ c ≠ '\\' ∧ (reach = .lines ∨ c ≠ '\n') := by
  simp [Reach.admits, and_assoc]

/-- An octal digit may stand by itself in any literal. -/
theorem Reach.admits_digit (reach : Reach) (d : OctalDigit) : reach.admits d.char = true := by
  cases reach <;> revert d <;> decide

/-- Bodies between quotes are equal exactly if the bodies are. -/
theorem quote_inj {s t : Text} : quote s = quote t ↔ s = t := by
  simp [quote]

/-! ## Reading bodies -/

section Read

variable {reach : Reach} {body rest s t : Text}

/-- What is read up to a closing quote is a body. -/
theorem body_of_readBody? (h : readBody? reach s = some (body, rest)) : Body reach body := by
  fun_induction readBody? reach s generalizing body rest with
  | case1 => contradiction
  | case2 s =>
      obtain ⟨rfl, rfl⟩ := Prod.mk.inj (Option.some.inj h)
      exact .nil
  | case3 => contradiction
  | case4 c s hc ih =>
      obtain ⟨⟨b, r⟩, hb, he⟩ := Option.map_eq_some_iff.mp h
      obtain ⟨rfl, rfl⟩ := Prod.mk.inj he
      exact .escaped hc (ih hb)
  | case5 c s _ _ hc ih =>
      obtain ⟨⟨b, r⟩, hb, he⟩ := Option.map_eq_some_iff.mp h
      obtain ⟨rfl, rfl⟩ := Prod.mk.inj he
      exact .single hc (ih hb)
  | case6 => contradiction

theorem readBody?_escaped {c : Char} (hc : c ≠ '\n') (s : Text) :
    readBody? reach ('\\' :: c :: s) =
      (readBody? reach s).map fun (b, r) => ('\\' :: c :: b, r) := by
  simp [readBody?, hc]

theorem readBody?_single {c : Char} (hc : reach.admits c = true) (s : Text) :
    readBody? reach (c :: s) = (readBody? reach s).map fun (b, r) => (c :: b, r) := by
  obtain ⟨hq, hb, _⟩ := Reach.admits_iff.mp hc
  rw [readBody?]
  · rw [if_pos hc]
  · exact hq
  · exact fun c r h => absurd h hb

/-- A body is read up to the quote after it. -/
theorem Body.readBody?_append (h : Body reach body) (rest : Text) :
    readBody? reach (body ++ '"' :: rest) = some (body, rest) := by
  induction h with
  | nil => simp [readBody?]
  | escaped hc _ ih =>
      rw [List.cons_append, List.cons_append, readBody?_escaped hc, ih]
      rfl
  | single hc _ ih =>
      rw [List.cons_append, readBody?_single hc, ih]
      rfl

/-- A text is read as a body and a rest exactly if it is a body, a quote and the
rest. -/
theorem readBody?_eq_some_iff :
    readBody? reach s = some (body, rest) ↔ Body reach body ∧ s = body ++ '"' :: rest := by
  constructor
  · exact fun h => ⟨body_of_readBody? h, eq_of_readBody? h⟩
  · rintro ⟨h, rfl⟩
    exact h.readBody?_append rest

/-- A text is a body exactly if it is read up to a quote right after it. -/
theorem body_iff_readBody?_append_quote :
    Body reach s ↔ readBody? reach (s ++ ['"']) = some (s, []) := by
  rw [readBody?_eq_some_iff]
  exact ⟨fun h => ⟨h, rfl⟩, And.left⟩

instance (reach : Reach) (s : Text) : Decidable (Body reach s) :=
  decidable_of_iff _ body_iff_readBody?_append_quote.symm

/-! ## Bodies put together -/

theorem Body.append (hs : Body reach s) (ht : Body reach t) : Body reach (s ++ t) := by
  induction hs with
  | nil => exact ht
  | escaped hc _ ih => exact .escaped hc ih
  | single hc _ ih => exact .single hc ih

/-- What follows a unit of one character in a body is a body. -/
theorem Body.of_single {c : Char} (h : Body reach (c :: s)) (hc : c ≠ '\\') : Body reach s := by
  cases h with
  | escaped _ _ => contradiction
  | single _ hs => exact hs

/-- What follows an escaped character in a body is a body. -/
theorem Body.of_escaped {c : Char} (h : Body reach ('\\' :: c :: s)) :
    c ≠ '\n' ∧ Body reach s := by
  cases h with
  | escaped hc hs => exact ⟨hc, hs⟩
  | single hc _ => exact absurd rfl (Reach.admits_iff.mp hc).2.1

/-- A backslash alone is no body. -/
theorem not_body_lone : ¬ Body reach ['\\'] := by
  intro h
  cases h with
  | single hc _ => exact (Reach.admits_iff.mp hc).2.1 rfl

/-- The digits of a code are a body. -/
theorem body_digits (reach : Reach) (code : OctalCode) : Body reach code.digits := by
  have hd := reach.admits_digit
  exact .single (hd _) (.single (hd _) (.single (hd _) .nil))

/-- What follows an octal escape in a body is a body. -/
theorem Body.of_code {code : OctalCode} (h : Body reach ('\\' :: (code.digits ++ s))) :
    Body reach s :=
  (((Body.of_escaped h).2.of_single code.mid.char_ne_backslash).of_single
    code.low.char_ne_backslash)

/-- No body on one line holds a line feed. -/
theorem Body.newline_notMem (h : Body .line s) : '\n' ∉ s := by
  induction h with
  | nil => simp
  | escaped hc _ ih => simpa using ⟨hc.symm, ih⟩
  | single hc _ ih =>
      have hn := (Reach.admits_iff.mp hc).2.2
      simpa using ⟨fun h => by simp [← h] at hn, ih⟩

/-- A body that reaches over lines and holds no line feed is one on one line. -/
theorem Body.line_of_newline_notMem (h : Body .lines s) (hn : '\n' ∉ s) : Body .line s := by
  induction h with
  | nil => exact .nil
  | escaped hc _ ih =>
      simp only [List.mem_cons, not_or] at hn
      exact .escaped hc (ih hn.2.2)
  | single hc _ ih =>
      simp only [List.mem_cons, not_or] at hn
      obtain ⟨hq, hb, _⟩ := Reach.admits_iff.mp hc
      exact .single (Reach.admits_iff.mpr ⟨hq, hb, .inr (Ne.symm hn.1)⟩) (ih hn.2)

end Read

/-! ## Decoded bodies -/

section Decode

variable {reach : Reach} {policy : Escape.Policy} {s : Text}

/-- What is written for an escape in a literal is a body. -/
theorem body_of_written {code : OctalCode} {w : Text} (h : code.Written policy w) :
    Body reach w := by
  cases h with
  | mnemonic d hd => exact .escaped (by rintro rfl; revert hd; decide) .nil
  | single c hc =>
      simp only [List.mem_cons, List.not_mem_nil, or_false, not_or] at hc
      exact .single (Reach.admits_iff.mpr ⟨hc.1, hc.2.1, .inr hc.2.2⟩) .nil
  | kept =>
      have hd : code.high.char ≠ '\n' := by
        simpa using (Reach.admits_iff.mp (Reach.admits_digit .line code.high)).2.2
      exact .escaped hd ((body_digits reach code).of_single code.high.char_ne_backslash)
  | bracketed =>
      have hb : reach.admits '[' = true ∧ reach.admits ']' = true := by cases reach <;> decide
      exact .single hb.1 ((body_digits reach code).append (.single hb.2 .nil))
  | dropped => exact .nil

/-- Decoding for a literal makes a body of a body. -/
theorem Body.decode (h : Body reach s) : Body reach (Escape.decode policy .quoted s) := by
  induction s using Escape.reading_induction with
  | nil => exact .nil
  | pair s ih =>
      rw [Escape.decode_pair]
      exact .escaped (by decide) (ih h.of_escaped.2)
  | code code s ih =>
      rw [Escape.decode_code]
      exact (body_of_written (Escape.written_decode policy code)).append (ih h.of_code)
  | short c s hc hn ih =>
      rw [Escape.decode_short policy .quoted hc hn]
      exact .escaped h.of_escaped.1 (ih h.of_escaped.2)
  | lone => exact absurd h not_body_lone
  | plain c s hc ih =>
      rw [Escape.decode_plain policy .quoted hc]
      cases h with
      | escaped _ _ => contradiction
      | single ha hs => exact .single ha (ih hs)

end Decode

end LuaReveal.Literal
