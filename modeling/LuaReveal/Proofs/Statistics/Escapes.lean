import Mathlib.Algebra.BigOperators.Group.List.Basic
import LuaReveal.Outcome
import LuaReveal.Proofs.Escape.Repetition
import LuaReveal.Proofs.Literal.Structure

/-!
# LuaReveal.Proofs.Statistics.Escapes

What the count of converted escapes counts.

The decoder rewrites escapes in the bodies of the literals of a source text and
nowhere else, but the count is taken over the whole text.  A text is cut into its
literals and the gaps between them, and since no escape takes in a quote, its
count is the sum of theirs (`convertedCount_eq_sum_bodies_add_sum_gaps`).  So the
statistic counts what was rewritten exactly if there is nothing to convert in the
gaps: in comments, in other strings, and in code
(`escapesConverted_ofSource_eq_iff`).
-/

namespace LuaReveal.Literal

open Text (Piece)

section Count

variable (policy : Escape.Policy)

/-- The escapes of a text around a literal are those before it, those of its body,
and those after it. -/
theorem convertedCount_append_quote_append (s body t : Text) :
    Escape.convertedCount policy (s ++ quote body ++ t) =
      Escape.convertedCount policy s + Escape.convertedCount policy body +
        Escape.convertedCount policy t := by
  have hq : s ++ quote body ++ t = s ++ '"' :: (body ++ '"' :: t) := by simp [quote]
  have ho : Escape.isOctalDigit '"' = false := by decide
  rw [hq, Escape.convertedCount_append_cons policy (by decide) ho,
    Escape.convertedCount_append_cons policy (by decide) ho, Nat.add_assoc]

/-- A literal has the escapes of its body. -/
theorem convertedCount_quote (body : Text) :
    Escape.convertedCount policy (quote body) = Escape.convertedCount policy body := by
  simpa using convertedCount_append_quote_append policy [] body []

/-- The escapes of a source text are those of the bodies of its literals and those of
the gaps between the literals. -/
theorem convertedCount_eq_sum_bodies_add_sum_gaps (source : Text) :
    Escape.convertedCount policy source =
      ((bodies source).map (Escape.convertedCount policy)).sum +
        ((gaps source).map (Escape.convertedCount policy)).sum := by
  have hl : ∀ l ∈ literals source, ∀ s t, Escape.convertedCount policy (s ++ l ++ t) =
      Escape.convertedCount policy s + Escape.convertedCount policy l +
        Escape.convertedCount policy t := by
    intro l hm s t
    rw [literals_eq_map_quote] at hm
    obtain ⟨body, _, rfl⟩ := List.mem_map.mp hm
    rw [convertedCount_append_quote_append, convertedCount_quote]
  have hb : (literals source).map (Escape.convertedCount policy) =
      (bodies source).map (Escape.convertedCount policy) := by
    simp [literals_eq_map_quote, convertedCount_quote]
  calc Escape.convertedCount policy source
      = Escape.convertedCount policy (Piece.weave (gaps source) (literals source)) := by
        rw [weave_gaps_literals]
    _ = ((gaps source).map (Escape.convertedCount policy)).sum +
          ((literals source).map (Escape.convertedCount policy)).sum :=
        Piece.apply_weave _ _ hl _ (length_gaps source)
    _ = ((bodies source).map (Escape.convertedCount policy)).sum +
          ((gaps source).map (Escape.convertedCount policy)).sum := by
        rw [hb, Nat.add_comm]

end Count

end LuaReveal.Literal

namespace LuaReveal.Outcome

/-- **What is counted**: the count of converted escapes is that of the escapes in the
bodies of the literals, which are all that is decoded, exactly if there is nothing to
convert in any gap between the literals. -/
theorem escapesConverted_ofSource_eq_iff (settings : Settings) (source : Text) :
    (ofSource settings source).statistics.escapesConverted =
        ((Literal.bodies source).map (Escape.convertedCount settings.policy)).sum ↔
      ∀ gap ∈ Literal.gaps source, Escape.convertedCount settings.policy gap = 0 := by
  have hs : (ofSource settings source).statistics.escapesConverted =
      Escape.convertedCount settings.policy source := rfl
  rw [hs, Literal.convertedCount_eq_sum_bodies_add_sum_gaps, Nat.add_eq_left,
    List.sum_eq_zero_iff_forall_eq_nat, List.forall_mem_map]

/-- An escape between single quotes is counted, and nothing is decoded. -/
theorem escapesConverted_singleQuoted :
    (ofSource .standard "print('\\101')".toList).statistics.escapesConverted ≠
      ((Literal.bodies "print('\\101')".toList).map
        (Escape.convertedCount Settings.standard.policy)).sum := by
  decide +kernel

end LuaReveal.Outcome
