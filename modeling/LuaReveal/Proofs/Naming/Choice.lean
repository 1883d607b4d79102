import LuaReveal.Proofs.Naming.Positions
import LuaReveal.Text.Word

/-!
# LuaReveal.Proofs.Naming.Choice

Every letter gets its first choice of an alias.  First choices of different
characters differ (`baseAlias_injective`), so in a map that was built by asking
for aliases no alias is ever taken when a new letter comes, and the alias of a
letter does not depend on what was asked for before it
(`AliasMap.FirstChoices.aliasFor_eq`).

First choices of word characters are words of more than one character that are
not reserved.
-/

namespace LuaReveal.Naming

open Text (isWord isAsciiLetter)

/-! ## First choices -/

/-- The first choice of an alias before reserved words are avoided. -/
def suggestion (letter : Char) : Text :=
  (roles.lookup letter).getD ("var_".toList ++ [letter])

/-- A suggestion is the usual role of its letter, or `var_` and the letter where
the letter has no usual role. -/
theorem suggestion_cases (letter : Char) :
    (letter, suggestion letter) ∈ roles ∨
      roles.lookup letter = none ∧ suggestion letter = "var_".toList ++ [letter] := by
  unfold suggestion
  cases h : roles.lookup letter with
  | none => exact .inr ⟨rfl, rfl⟩
  | some role =>
      obtain ⟨l₁, l₂, hr, _⟩ := List.lookup_eq_some_iff.mp h
      exact .inl (by rw [hr]; simp)

/-- No suggestion is a reserved word. -/
theorem not_isReserved_suggestion (letter : Char) :
    Keyword.isReserved (suggestion letter) = false := by
  rcases suggestion_cases letter with h | ⟨_, h⟩
  · have hr : ∀ p ∈ roles, Keyword.isReserved p.2 = false := by decide
    exact hr _ h
  · have hv : ∀ w ∈ Keyword.reserved, w.head? ≠ some 'v' := by decide
    rw [h, Keyword.isReserved]
    simp only [List.contains_eq_mem, decide_eq_false_iff_not]
    exact fun hm => hv _ hm rfl

/-- The first choice of an alias is the suggestion itself. -/
theorem baseAlias_eq_suggestion (letter : Char) : baseAlias letter = suggestion letter := by
  show avoidReserved (suggestion letter) = suggestion letter
  rw [avoidReserved, not_isReserved_suggestion]
  rfl

theorem not_isReserved_baseAlias (letter : Char) :
    Keyword.isReserved (baseAlias letter) = false := by
  rw [baseAlias_eq_suggestion]
  exact not_isReserved_suggestion letter

/-- Different characters have different first choices. -/
theorem baseAlias_injective {a b : Char} (h : baseAlias a = baseAlias b) : a = b := by
  have hd : ∀ p ∈ roles, ∀ q ∈ roles, p.2 = q.2 → p.1 = q.1 := by decide
  have hv : ∀ p ∈ roles, p.2.take 4 ≠ "var_".toList := by decide
  rw [baseAlias_eq_suggestion, baseAlias_eq_suggestion] at h
  rcases suggestion_cases a with ha | ⟨_, ha⟩ <;> rcases suggestion_cases b with hb | ⟨_, hb⟩
  · exact hd _ ha _ hb h
  · exact absurd (by rw [h, hb]; rfl) (hv _ ha)
  · exact absurd (by rw [← h, ha]; rfl) (hv _ hb)
  · rw [ha, hb] at h
    simpa using h

/-- A first choice has more than one character. -/
theorem two_le_length_baseAlias (letter : Char) : 2 ≤ (baseAlias letter).length := by
  rw [baseAlias_eq_suggestion]
  rcases suggestion_cases letter with h | ⟨_, h⟩
  · have hr : ∀ p ∈ roles, 2 ≤ p.2.length := by decide
    exact hr _ h
  · rw [h]
    simp

/-- The first choice of a word character is a word. -/
theorem isWord_of_mem_baseAlias {letter c : Char} (hl : isWord letter = true)
    (hc : c ∈ baseAlias letter) : isWord c = true := by
  rw [baseAlias_eq_suggestion] at hc
  rcases suggestion_cases letter with h | ⟨_, h⟩
  · have hr : ∀ p ∈ roles, p.2.all isWord = true := by decide
    exact List.all_eq_true.mp (hr _ h) c hc
  · have hv : "var_".toList.all isWord = true := by decide
    rw [h] at hc
    rcases List.mem_append.mp hc with hc | hc
    · exact List.all_eq_true.mp hv c hc
    · rw [List.mem_singleton.mp hc]
      exact hl

/-! ## Maps of first choices -/

namespace AliasMap

/-- The index of the map is that of its pairs, and every letter has its first
choice. -/
structure FirstChoices (m : AliasMap) : Prop where
  indexed : m.Indexed
  eq_baseAlias : ∀ p ∈ m.pairs, p.2 = baseAlias p.1

theorem firstChoices_empty : empty.FirstChoices where
  indexed := indexed_empty
  eq_baseAlias _ hp := absurd hp List.not_mem_nil

section Map

variable {m : AliasMap} {letter : Char}

/-- In a map of first choices a letter has its first choice or nothing. -/
theorem FirstChoices.get?_eq (h : m.FirstChoices) :
    m.get? letter = if letter ∈ m.letters then some (baseAlias letter) else none := by
  by_cases hm : letter ∈ m.letters
  · rw [if_pos hm]
    obtain ⟨word, hw⟩ := Option.isSome_iff_exists.mp (h.indexed.isSome_get?_iff.mpr hm)
    rw [hw]
    exact congrArg some (h.eq_baseAlias _ (h.indexed.get?_eq_some_iff.mp hw))
  · rw [if_neg hm]
    exact h.indexed.get?_eq_none_iff.mpr hm

/-- A fresh alias is the first choice, since no other letter has taken it. -/
theorem FirstChoices.freshAlias_eq (h : m.FirstChoices) (hn : letter ∉ m.letters) :
    freshAlias m.aliases letter = baseAlias letter := by
  have hf : baseAlias letter ∉ m.aliases := by
    intro hm
    obtain ⟨p, hp, he⟩ := List.mem_map.mp hm
    have hl : p.1 = letter := baseAlias_injective ((h.eq_baseAlias p hp).symm.trans he)
    exact hn (List.mem_map.mpr ⟨p, hp, hl⟩)
  rw [freshAlias, firstFree, if_neg hf]

/-- The alias of a letter is its first choice, whatever was asked for before. -/
theorem FirstChoices.aliasFor_eq (h : m.FirstChoices) (letter : Char) :
    m.aliasFor letter = baseAlias letter := by
  rw [aliasFor, h.get?_eq]
  by_cases hm : letter ∈ m.letters
  · rw [if_pos hm, Option.getD_some]
  · rw [if_neg hm, Option.getD_none, h.freshAlias_eq hm]

theorem FirstChoices.add (h : m.FirstChoices) (letter : Char) :
    (m.add letter).FirstChoices := by
  refine ⟨h.indexed.add letter, fun p hp => ?_⟩
  by_cases hm : letter ∈ m.letters
  · rw [h.indexed.add_of_mem hm] at hp
    exact h.eq_baseAlias p hp
  · rw [h.indexed.add_of_notMem hm, h.freshAlias_eq hm] at hp
    rcases List.mem_append.mp hp with hp | hp
    · exact h.eq_baseAlias p hp
    · rw [List.mem_singleton.mp hp]

theorem FirstChoices.addAll (h : m.FirstChoices) (asked : List Char) :
    (m.addAll asked).FirstChoices := by
  induction asked generalizing m with
  | nil => exact h
  | cons letter asked ih => exact ih (h.add letter)

end Map

end AliasMap

end LuaReveal.Naming
