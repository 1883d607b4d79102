import LuaReveal.Proofs.Text.Occurrence
import LuaReveal.Text.Word

/-!
# LuaReveal.Proofs.Text.Standing

Texts that stand in a longer text at a place that no word runs into
(`StandsIn`), and what a pass must do to leave them there: the text before the
place must end as it did (`KeepsEnd`, `StaysAfter`).
-/

namespace LuaReveal.Text

/-! ## The ends of texts -/

/-- Where no word runs on from the end of `s`, none runs on from the end of `t`.
The texts start after characters that are related in the same way. -/
def KeepsEnd (s t : Text) : Prop :=
  ∀ p q : Option Char, (isWordAt p = false → isWordAt q = false) →
    isWordAt (lastAfter p s) = false → isWordAt (lastAfter q t) = false

namespace KeepsEnd

theorem refl (s : Text) : KeepsEnd s s := by
  intro p q h hs
  cases hl : s.getLast? with
  | none =>
      rw [List.getLast?_eq_none_iff] at hl
      subst hl
      exact h hs
  | some c =>
      rw [lastAfter, hl] at hs ⊢
      exact hs

theorem append {s s' t t' : Text} (hs : KeepsEnd s s') (ht : KeepsEnd t t') :
    KeepsEnd (s ++ t) (s' ++ t') := by
  intro p q h he
  rw [lastAfter_append] at he ⊢
  exact ht _ _ (hs p q h) he

/-- No word runs on from a character that is no word character. -/
theorem of_snoc {c : Char} (hc : isWord c = false) (s t : Text) : KeepsEnd s (t ++ [c]) := by
  intro p q _ _
  simpa using hc

/-- A word runs on from a word character. -/
theorem of_snoc_word {c : Char} (hc : isWord c = true) (s t : Text) : KeepsEnd (s ++ [c]) t := by
  intro p q _ h
  simp [hc] at h

/-- Parts that keep their ends do so together. -/
theorem flatMap {parts : List α} {f g : α → Text} (h : ∀ a ∈ parts, KeepsEnd (f a) (g a)) :
    KeepsEnd (parts.flatMap f) (parts.flatMap g) := by
  induction parts with
  | nil => exact refl []
  | cons a parts ih =>
      rw [List.flatMap_cons, List.flatMap_cons]
      exact (h a List.mem_cons_self).append (ih fun b hb => h b (List.mem_cons_of_mem a hb))

end KeepsEnd

/-! ## Standing texts -/

/-- The text `o` stands somewhere in the text `s`, and no word runs into it. -/
def StandsIn (o s : Text) : Prop :=
  ∃ before after, s = before ++ (o ++ after) ∧ isWordAt (lastAfter none before) = false

/-- The text `o`, which stood after the text `before`, stands in the text `t`
after a text that ends as `before` did. -/
def StaysAfter (o before t : Text) : Prop :=
  ∃ before' after', t = before' ++ (o ++ after') ∧ KeepsEnd before before'

theorem StaysAfter.append {o before t x x' : Text} (hx : KeepsEnd x x')
    (h : StaysAfter o before t) : StaysAfter o (x ++ before) (x' ++ t) := by
  obtain ⟨before', after', ht, hk⟩ := h
  exact ⟨x' ++ before', after', by rw [ht, List.append_assoc], hx.append hk⟩

/-- A text that stands where no word runs into it stays there under a pass that
leaves it after each text that it stood after. -/
theorem StandsIn.of_staysAfter {o s t : Text} (hs : StandsIn o s)
    (h : ∀ before after, s = before ++ (o ++ after) → StaysAfter o before t) : StandsIn o t := by
  obtain ⟨before, after, he, hb⟩ := hs
  obtain ⟨before', after', ht, hk⟩ := h before after he
  exact ⟨before', after', ht, hk none none id hb⟩

end LuaReveal.Text
