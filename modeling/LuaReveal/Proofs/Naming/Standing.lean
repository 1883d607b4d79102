import LuaReveal.Proofs.Naming.Declared
import LuaReveal.Proofs.Text.Standing

/-!
# LuaReveal.Proofs.Naming.Standing

Where a text may be cut before a substitution: after a character that is no word
character (`ByNames.substituteAfter_append`), and behind a word after a blank, which is
substituted as if nothing were around it (`substituteAfter_blank_word_append`).  So the
parts of a declaration are substituted one by one.  What is written before a place ends
as the text before it did: a name is put where a word character was.
-/

namespace LuaReveal.Naming

open Text (KeepsEnd isWord isWordAt isBlank lastAfter lastAfter_cons)

variable {f : Char → Option Text} {prev : Option Char}

/-! ## Texts with nothing to replace -/

/-- Characters that there is nothing for stay. -/
theorem substituteAfter_append_of_none {u : Text} (hu : ∀ c ∈ u, f c = none) (s : Text) :
    substituteAfter f prev (u ++ s) = u ++ substituteAfter f (lastAfter prev u) s := by
  induction u generalizing prev with
  | nil => rfl
  | cons c u ih =>
      have hc : f c = none := hu c List.mem_cons_self
      rw [List.cons_append, substituteAfter_cons_of_none hc,
        ih fun d hd => hu d (List.mem_cons_of_mem c hd), lastAfter_cons]
      rfl

/-! ## Cutting a text -/

/-- Whether a character stands alone does not depend on what follows the text
behind it. -/
theorem standsAlone_cons_append (prev : Option Char) (d : Char) (s t : Text) :
    standsAlone prev (d :: s ++ t) = standsAlone prev (d :: s) := rfl

/-- After a text that no word runs on from, a text is substituted by itself. -/
theorem ByNames.substituteAfter_append (hf : ByNames f) {s : Text}
    (hs : isWordAt (lastAfter prev s) = false) (t : Text) :
    substituteAfter f prev (s ++ t) =
      substituteAfter f prev s ++ substituteAfter f (lastAfter prev s) t := by
  induction s generalizing prev with
  | nil => rfl
  | cons c s ih =>
      rw [lastAfter_cons] at hs ⊢
      cases s with
      | nil =>
          have hc : f c = none := hf.eq_none_of_not_isWord hs
          rw [List.cons_append, substituteAfter_cons_of_none hc, substituteAfter_cons_of_none hc]
          rfl
      | cons d s =>
          rw [List.cons_append, substituteAfter, substituteAfter, standsAlone_cons_append, ih hs,
            List.append_assoc]

/-- A substituted text ends as the text did. -/
theorem ByNames.keepsEnd_substituteAfter (hf : ByNames f) (prev : Option Char) (s : Text) :
    KeepsEnd s (substituteAfter f prev s) := by
  induction s generalizing prev with
  | nil => exact KeepsEnd.refl []
  | cons c s ih =>
      have hk : KeepsEnd [c] (if standsAlone prev s then (f c).getD [c] else [c]) := by
        cases hw : isWord c with
        | true => exact KeepsEnd.of_snoc_word hw [] _
        | false =>
            rw [hf.eq_none_of_not_isWord hw, Option.getD_none, ite_self]
            exact KeepsEnd.refl [c]
      exact hk.append (ih (some c))

/-! ## Words by themselves -/

section Word

variable {w : Text}

/-- A word of more than one character is what is substituted for it. -/
theorem substitute_word (hw : ∀ d ∈ w, isWord d = true) (hl : 2 ≤ w.length) :
    substitute f w = w := by
  have h : substituteAfter f none (w ++ []) = w ++ substituteAfter f (some '_') [] :=
    substituteAfter_word_append hw hl (show isWord '_' = true by decide) []
  rwa [List.append_nil, substituteAfter, List.append_nil] at h

/-- One character is substituted by what there is for it. -/
theorem substitute_singleton (f : Char → Option Text) (c : Char) :
    substitute f [c] = (f c).getD [c] :=
  List.append_nil _

/-- A word is substituted by a word. -/
theorem ByNames.isWord_of_mem_substitute (hf : ByNames f) (hw : ∀ d ∈ w, isWord d = true)
    {d : Char} (hd : d ∈ substitute f w) : isWord d = true := by
  match w with
  | [] => exact absurd hd List.not_mem_nil
  | a :: b :: u =>
      rw [substitute_word hw (by simp)] at hd
      exact hw d hd
  | [c] =>
      rw [substitute_singleton] at hd
      cases hc : f c with
      | none =>
          rw [hc] at hd
          exact hw d hd
      | some v =>
          rw [hc] at hd
          exact hf.isWord_of_mem hc hd

/-- A word that is not empty is substituted by one that is not empty. -/
theorem ByNames.substitute_ne_nil (hf : ByNames f) (hn : w ≠ []) : substitute f w ≠ [] := by
  cases w with
  | nil => exact absurd rfl hn
  | cons c w =>
      cases substituteAfter_cons_cases f none c w with
      | inl h =>
          obtain ⟨v, _, hv, he⟩ := h
          obtain ⟨a, b, u, rfl, _⟩ := hf.exists_cons hv
          rw [substitute, he]
          exact List.cons_ne_nil _ _
      | inr h =>
          rw [substitute, h.2]
          exact List.cons_ne_nil _ _

/-- A word between a blank and a text that it does not run into is substituted by
itself, and the text behind it as behind any word. -/
theorem substituteAfter_blank_word_append {b : Char} (hb : isBlank b = true)
    (hw : ∀ d ∈ w, isWord d = true) (hn : w ≠ []) {s : Text} (hs : isWordAt s.head? = false) :
    substituteAfter f (some b) (w ++ s) = substitute f w ++ substituteAfter f (some '_') s := by
  match w with
  | [] => exact absurd rfl hn
  | a :: d :: u =>
      rw [substituteAfter_word_append hw (by simp) (show isWord '_' = true by decide),
        substitute_word hw (by simp)]
  | [c] =>
      have hc : isWordAt (some c) = true := hw c List.mem_cons_self
      rw [List.singleton_append, substituteAfter, if_pos (standsAlone_of_isBlank hb hs),
        substitute_singleton,
        substituteAfter_congr_of_isWordAt hc (show isWordAt (some '_') = true by decide)]

end Word

end LuaReveal.Naming
