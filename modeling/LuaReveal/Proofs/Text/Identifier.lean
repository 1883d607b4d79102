import LuaReveal.Proofs.Text.Class
import LuaReveal.Proofs.Text.Words

/-!
# LuaReveal.Proofs.Text.Identifier

Identifiers as a predicate.  `readIdentifier?` reads exactly an identifier that no
word character goes on from (`readIdentifier?_eq_some_iff`).
-/

namespace LuaReveal.Text

/-- An identifier is a letter of the 26 or an underscore, and any word characters. -/
inductive IsIdentifier : Text → Prop
  | cons {c : Char} {w : Text} (hc : isIdentifierStart c = true)
      (hw : ∀ d ∈ w, isWord d = true) : IsIdentifier (c :: w)

section Read

variable {w s rest : Text}

theorem IsIdentifier.ne_nil (h : IsIdentifier w) : w ≠ [] := by
  cases h with
  | cons _ _ => simp

theorem IsIdentifier.isWord_of_mem (h : IsIdentifier w) : ∀ c ∈ w, isWord c = true := by
  cases h with
  | cons hc hw =>
      intro c hm
      cases List.mem_cons.mp hm with
      | inl he => exact he ▸ isWord_of_isIdentifierStart hc
      | inr ht => exact hw c ht

/-- An identifier is read from a text exactly if the text starts with it and no word
character follows it. -/
theorem readIdentifier?_eq_some_iff :
    readIdentifier? s = some (w, rest) ↔
      IsIdentifier w ∧ isWordAt rest.head? = false ∧ s = w ++ rest := by
  constructor
  · intro h
    have hs : w ++ rest = s := append_of_readIdentifier? h
    cases s with
    | nil => contradiction
    | cons c s =>
        by_cases hc : isIdentifierStart c = true
        · rw [readIdentifier?, if_pos hc] at h
          obtain ⟨rfl, rfl⟩ := Prod.mk.inj (Option.some.inj h)
          have hw : ∀ d ∈ s.takeWhile isWord, isWord d = true := fun d hd =>
            List.all_eq_true.mp List.all_takeWhile d hd
          exact ⟨.cons hc hw, isWordAt_head?_dropWhile s, hs.symm⟩
        · rw [readIdentifier?, if_neg hc] at h
          contradiction
  · rintro ⟨hi, hr, hs⟩
    cases hi with
    | cons hc hw =>
        rw [hs, List.cons_append, readIdentifier?, if_pos hc, takeWhile_word_append hw hr,
          dropWhile_word_append hw hr]

/-- Behind blanks and a character that is no word character no word runs on. -/
theorem isWordAt_head?_blanks {b : Text} {c : Char} (hb : ∀ d ∈ b, isBlank d = true)
    (hc : isWord c = false) : isWordAt (b ++ c :: s).head? = false := by
  cases b with
  | nil => exact hc
  | cons d b => exact isWord_of_isBlank (hb d List.mem_cons_self)

end Read

end LuaReveal.Text
