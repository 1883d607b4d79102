import LuaReveal.Naming.AliasMap

/-!
# LuaReveal.Proofs.Naming.Positions

The index of an alias map.  A map is `Indexed` if the index has for each letter
the position of its own pair and nothing else; asking for an alias keeps that
(`Indexed.add`).  In an indexed map the index finds exactly the pairs
(`Indexed.get?_eq_some_iff`).

Requests only add at the end: the pairs that a map has stay where they are
(`prefix_pairs_addAll`), and its letters are the requested ones in the order of
their first requests (`Indexed.letters_addAll`).
-/

namespace LuaReveal.Naming.AliasMap

/-- The index has for each letter the position of its pair, and nothing else. -/
def Indexed (m : AliasMap) : Prop :=
  ∀ letter i, m.position? letter = some i ↔ m.letters[i]? = some letter

theorem indexed_empty : empty.Indexed := by
  intro letter i
  simp [position?, letters, empty]

section Lookup

variable {m : AliasMap} {letter : Char} {word : Text}

theorem getElem?_letters (m : AliasMap) (i : Nat) : m.letters[i]? = m.pairs[i]?.map Prod.fst :=
  List.getElem?_map

/-- Each letter has one pair only. -/
theorem Indexed.nodup_letters (h : m.Indexed) : m.letters.Nodup := by
  refine List.pairwise_iff_getElem.mpr fun i j hi hj hij he => ?_
  have hpi : m.position? m.letters[i] = some i := (h _ i).mpr (List.getElem?_eq_getElem hi)
  have hpj : m.position? m.letters[i] = some j :=
    (h _ j).mpr (he ▸ List.getElem?_eq_getElem hj)
  have heq : i = j := Option.some.inj (hpi.symm.trans hpj)
  omega

/-- The index leads to the pairs of the map and to no others. -/
theorem Indexed.get?_eq_some_iff (h : m.Indexed) :
    m.get? letter = some word ↔ (letter, word) ∈ m.pairs := by
  have hl (i : Nat) : m.position? letter = some i ↔ m.pairs[i]?.map Prod.fst = some letter := by
    rw [h letter i, getElem?_letters]
  constructor
  · intro hg
    obtain ⟨i, hi, hw⟩ := Option.bind_eq_some_iff.mp hg
    obtain ⟨p, hp, rfl⟩ := Option.map_eq_some_iff.mp hw
    have hf : p.1 = letter := by simpa [hp] using (hl i).mp hi
    rw [← hf]
    exact List.mem_of_getElem? hp
  · intro hm
    obtain ⟨i, hi⟩ := List.mem_iff_getElem?.mp hm
    have hp : m.position? letter = some i := (hl i).mpr (by rw [hi]; rfl)
    simp [get?, hp, hi]

/-- A letter is in an indexed map exactly if it has an alias. -/
theorem Indexed.get?_eq_none_iff (h : m.Indexed) : m.get? letter = none ↔ letter ∉ m.letters := by
  have hs : (∃ word, m.get? letter = some word) ↔ letter ∈ m.letters := by
    simp [h.get?_eq_some_iff, letters]
  rw [← hs, Option.eq_none_iff_forall_ne_some, not_exists]

theorem Indexed.isSome_get?_iff (h : m.Indexed) :
    (m.get? letter).isSome = true ↔ letter ∈ m.letters := by
  rw [Option.isSome_iff_ne_none, ne_eq, h.get?_eq_none_iff, Decidable.not_not]

end Lookup

/-! ## One request -/

section Request

variable {m : AliasMap} {letter : Char}

/-- Asking again for an alias changes nothing. -/
theorem Indexed.add_of_mem (h : m.Indexed) (hm : letter ∈ m.letters) : m.add letter = m := by
  obtain ⟨word, hw⟩ := Option.isSome_iff_exists.mp (h.isSome_get?_iff.mpr hm)
  rw [add, hw]

/-- A new letter is put at the end, with a fresh alias. -/
theorem Indexed.add_of_notMem (h : m.Indexed) (hn : letter ∉ m.letters) :
    m.add letter =
      ⟨m.pairs ++ [(letter, freshAlias m.aliases letter)],
        (letter, m.pairs.length) :: m.index⟩ := by
  rw [add, h.get?_eq_none_iff.mpr hn]

theorem Indexed.letters_add (h : m.Indexed) (letter : Char) :
    (m.add letter).letters =
      if letter ∈ m.letters then m.letters else m.letters ++ [letter] := by
  by_cases hm : letter ∈ m.letters
  · rw [h.add_of_mem hm, if_pos hm]
  · rw [h.add_of_notMem hm, if_neg hm]
    simp [letters]

/-- **One request**: the index stays that of the pairs. -/
theorem Indexed.add (h : m.Indexed) (letter : Char) : (m.add letter).Indexed := by
  by_cases hm : letter ∈ m.letters
  · rw [h.add_of_mem hm]
    exact h
  have hlen : m.letters.length = m.pairs.length := List.length_map _
  have hl : (m.add letter).letters = m.letters ++ [letter] := by
    rw [h.letters_add, if_neg hm]
  intro other i
  have hp : (m.add letter).position? other =
      if other = letter then some m.pairs.length else m.position? other := by
    rw [h.add_of_notMem hm]
    by_cases ho : other = letter
    · simp [position?, ho]
    · have hb : (other == letter) = false := by simpa using ho
      simp [position?, List.lookup_cons, hb, ho]
  rw [hp, hl]
  by_cases ho : other = letter
  · -- The new letter stands behind the old ones, and at no other position.
    subst ho
    rw [if_pos rfl, Option.some.injEq, List.getElem?_append]
    by_cases hi : i < m.letters.length
    · have hne : m.letters[i]? ≠ some other := fun he => hm (List.mem_of_getElem? he)
      simp only [hi, if_true, hne, iff_false]
      omega
    · rw [if_neg hi, List.getElem?_singleton]
      split <;> simp <;> omega
  · rw [if_neg ho, h other i, List.getElem?_append]
    by_cases hi : i < m.letters.length
    · rw [if_pos hi]
    · rw [if_neg hi, List.getElem?_eq_none (by omega), List.getElem?_singleton]
      split <;> simp [Ne.symm ho]

/-- A letter that is asked for has its alias afterwards. -/
theorem Indexed.get?_add_self (h : m.Indexed) (letter : Char) :
    (m.add letter).get? letter = some (m.aliasFor letter) := by
  rw [(h.add letter).get?_eq_some_iff]
  by_cases hm : letter ∈ m.letters
  · obtain ⟨word, hw⟩ := Option.isSome_iff_exists.mp (h.isSome_get?_iff.mpr hm)
    rw [h.add_of_mem hm, aliasFor, hw]
    exact h.get?_eq_some_iff.mp hw
  · rw [h.add_of_notMem hm, aliasFor, h.get?_eq_none_iff.mpr hm]
    simp

/-- The pairs of a map stay where they are. -/
theorem prefix_pairs_add (m : AliasMap) (letter : Char) : m.pairs <+: (m.add letter).pairs := by
  unfold AliasMap.add
  split
  · exact List.prefix_rfl
  · exact List.prefix_append _ _

end Request

/-! ## Requests in a row -/

section Requests

variable {m : AliasMap} {other : Char}

theorem prefix_pairs_addAll (m : AliasMap) (asked : List Char) :
    m.pairs <+: (m.addAll asked).pairs := by
  induction asked generalizing m with
  | nil => exact List.prefix_rfl
  | cons letter asked ih => exact (m.prefix_pairs_add letter).trans (ih (m.add letter))

/-- The letters of a map after requests: those that it had, and then the other
requested ones in the order of their first requests. -/
theorem Indexed.letters_addAll (h : m.Indexed) (asked : List Char) :
    (m.addAll asked).letters =
      m.letters ++ (asked.filter fun c => c ∉ m.letters).eraseDups := by
  induction asked generalizing m with
  | nil => simp [AliasMap.addAll]
  | cons letter asked ih =>
      have ha := ih (h.add letter)
      rw [h.letters_add] at ha
      show ((m.add letter).addAll asked).letters = _
      rw [ha]
      by_cases hm : letter ∈ m.letters
      · simp [hm]
      · rw [if_neg hm, List.filter_cons_of_pos (by simpa using hm), List.eraseDups_cons,
          List.filter_filter, List.append_assoc, List.singleton_append]
        have hf : (asked.filter fun c => c ∉ m.letters ++ [letter]) =
            asked.filter fun c => !c == letter && c ∉ m.letters :=
          List.filter_congr fun c _ => by
            rw [Bool.eq_iff_iff]
            simp [and_comm]
        rw [hf]

/-- Requests put their letters into the map and no others. -/
theorem Indexed.mem_letters_addAll (h : m.Indexed) {asked : List Char} :
    other ∈ (m.addAll asked).letters ↔ other ∈ asked ∨ other ∈ m.letters := by
  rw [h.letters_addAll, List.mem_append, List.mem_eraseDups, List.mem_filter, decide_eq_true_eq]
  by_cases hm : other ∈ m.letters <;> simp [hm]

end Requests

end LuaReveal.Naming.AliasMap
