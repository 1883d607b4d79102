import LuaReveal.Proofs.Literal.Structure
import LuaReveal.Proofs.Text.Standing

/-!
# LuaReveal.Proofs.Literal.Standing

Decoding leaves a text alone that has no quote and no backslash, be it between
two literals or inside of one (`Inert.decodeAll`).  What is written before it
ends as the source text did, since an escape ends in a digit: if no word ran
into the text before, none does now.
-/

namespace LuaReveal.Literal

open Text (KeepsEnd StaysAfter)

/-- A text that takes no part in literals and escapes: it has no quote and no
backslash, and no escape before it can go on into it. -/
structure Inert (o : Text) : Prop where
  quote_notMem : '"' ∉ o
  backslash_notMem : '\\' ∉ o
  exists_cons : ∃ c w, o = c :: w ∧ Escape.isOctalDigit c = false

section Decode

variable (policy : Escape.Policy) {o : Text}

/-! ## Inside of a literal -/

/-- A decoded text ends as the text did. -/
theorem keepsEnd_decode (place : Escape.Place) (s : Text) :
    KeepsEnd s (Escape.decode policy place s) := by
  have h : ∀ t ∈ Escape.tokens s, KeepsEnd t.text (t.decode policy place) := by
    intro t _
    cases t with
    | backslashes => exact KeepsEnd.refl _
    | octal code =>
        exact KeepsEnd.of_snoc_word (Escape.OctalDigit.isWord_char code.low)
          ['\\', code.high.char, code.mid.char] _
    | plain c => exact KeepsEnd.refl _
  have hk := KeepsEnd.flatMap h
  rwa [Escape.flatMap_text_tokens] at hk

theorem decode_append_of_notMem {place : Escape.Place} (ho : '\\' ∉ o) (s : Text) :
    Escape.decode policy place (o ++ s) = o ++ Escape.decode policy place s := by
  induction o with
  | nil => rfl
  | cons c o ih =>
      obtain ⟨hc, ho⟩ := List.ne_and_not_mem_of_not_mem_cons ho
      rw [List.cons_append, Escape.decode_plain policy place (Ne.symm hc), ih ho]
      rfl

/-- A text inside of a literal stays, and the parts before and after it are
decoded by themselves. -/
theorem Inert.decode (ho : Inert o) {place : Escape.Place} (u v : Text) :
    Escape.decode policy place (u ++ (o ++ v)) =
      Escape.decode policy place u ++ (o ++ Escape.decode policy place v) := by
  rw [← decode_append_of_notMem policy ho.backslash_notMem]
  obtain ⟨c, w, rfl, hc⟩ := ho.exists_cons
  have hb : '\\' ≠ c := List.ne_of_not_mem_cons ho.backslash_notMem
  exact Escape.decode_append_cons policy place (Ne.symm hb) hc u (w ++ v)

/-! ## Anywhere in a source text -/

theorem decodeAll_append_of_notMem (ho : '"' ∉ o) (s : Text) :
    decodeAll policy (o ++ s) = o ++ decodeAll policy s := by
  induction o with
  | nil => rfl
  | cons c o ih =>
      obtain ⟨hc, ho⟩ := List.ne_and_not_mem_of_not_mem_cons ho
      rw [List.cons_append, decodeAll_plain policy (Ne.symm hc), ih ho]
      rfl

theorem Inert.decodeAll_append (ho : Inert o) (s : Text) :
    StaysAfter o [] (Literal.decodeAll policy (o ++ s)) :=
  ⟨[], Literal.decodeAll policy s, decodeAll_append_of_notMem policy ho.quote_notMem s,
    KeepsEnd.refl []⟩

/-- A text without a quote does not start where a quote stands. -/
theorem Inert.append_ne_quote_cons (ho : Inert o) (s t : Text) : '"' :: s ≠ o ++ t := by
  obtain ⟨c, w, rfl, _⟩ := ho.exists_cons
  intro h
  have hc : c = '"' := (List.cons.inj h).1.symm
  exact ho.quote_notMem (hc ▸ List.mem_cons_self)

/-- A text without a quote lies inside of a literal or after it. -/
theorem Inert.after_or_inside (ho : Inert o) {body rest before after : Text}
    (h : quote body ++ rest = before ++ (o ++ after)) :
    (∃ b, before = quote body ++ b ∧ rest = b ++ (o ++ after)) ∨
      ∃ u v, before = '"' :: u ∧ body = u ++ (o ++ v) := by
  have hq : quote body ++ rest = '"' :: (body ++ '"' :: rest) := by simp [quote]
  rw [hq] at h
  cases before with
  | nil => exact absurd h (ho.append_ne_quote_cons _ after)
  | cons d u =>
      obtain ⟨rfl, hu⟩ := List.cons.inj h
      rcases List.append_eq_append_iff.mp hu with ⟨a, hb, ha⟩ | ⟨a, hb, ha⟩
      · -- The text starts after the body, and not at the closing quote.
        cases a with
        | nil => exact absurd ha (ho.append_ne_quote_cons rest after)
        | cons e b =>
            obtain ⟨rfl, hr⟩ := List.cons.inj ha
            exact .inl ⟨b, by rw [hb]; simp [quote], hr⟩
      · -- The text starts in the body, and does not reach over the closing quote.
        rcases List.append_eq_append_iff.mp ha with ⟨v, hv, _⟩ | ⟨v, hv, he⟩
        · exact .inr ⟨u, v, rfl, by rw [hb, hv]⟩
        · cases v with
          | nil =>
              rw [List.append_nil] at hv
              exact .inr ⟨u, [], rfl, by rw [hb, hv, List.append_nil]⟩
          | cons e v =>
              refine absurd ?_ ho.quote_notMem
              rw [hv, (List.cons.inj he).1]
              simp

/-- A character that stays leaves a text where it stands. -/
theorem Inert.decodeAll_cons (ho : Inert o) {c : Char} {s : Text}
    (hc : Literal.decodeAll policy (c :: s) = c :: Literal.decodeAll policy s)
    (ih : ∀ before after, s = before ++ (o ++ after) →
      StaysAfter o before (Literal.decodeAll policy s)) :
    ∀ before after, c :: s = before ++ (o ++ after) →
      StaysAfter o before (Literal.decodeAll policy (c :: s)) := by
  intro before after hs
  cases before with
  | nil =>
      rw [hs]
      exact ho.decodeAll_append policy after
  | cons d before =>
      obtain ⟨rfl, hb⟩ := List.cons.inj hs
      rw [hc]
      exact (ih before after hb).append (KeepsEnd.refl [c])

/-- Decoding leaves a text where it stands. -/
theorem Inert.decodeAll (ho : Inert o) (s : Text) :
    ∀ before after, s = before ++ (o ++ after) →
      StaysAfter o before (Literal.decodeAll policy s) := by
  induction s using pieces_induction with
  | nil =>
      intro before after hs
      obtain ⟨c, w, rfl, _⟩ := ho.exists_cons
      simp at hs
  | literal body rest hb ih =>
      intro before after hs
      rw [decodeAll_literal policy hb]
      rcases ho.after_or_inside hs with ⟨b, rfl, hr⟩ | ⟨u, v, rfl, rfl⟩
      · exact (ih b after hr).append (KeepsEnd.of_snoc (by decide) _ ('"' :: _))
      · refine ⟨'"' :: Escape.decode policy .quoted u,
          Escape.decode policy .quoted v ++ '"' :: Literal.decodeAll policy rest, ?_, ?_⟩
        · rw [requote, ho.decode, quote]
          simp
        · exact (KeepsEnd.refl ['"']).append (keepsEnd_decode policy .quoted u)
  | unclosed s hu ih => exact ho.decodeAll_cons policy (decodeAll_unclosed policy hu) ih
  | plain c s hc ih => exact ho.decodeAll_cons policy (decodeAll_plain policy hc s) ih

end Decode

end LuaReveal.Literal
