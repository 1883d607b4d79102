import LuaReveal.Proofs.Naming.Choice

/-!
# LuaReveal.Proofs.Naming.Requests

The alias map after any requests.  Its letters, its index and its aliases agree
with one another and with the requests, and later requests change nothing that
is there (`consistent_addAll_empty`).

The aliases of an indexed map of first choices are the first choices of its
letters in order (`FirstChoices.aliases_eq`), so they differ as the letters do.
-/

namespace LuaReveal.Naming.AliasMap

section FirstChoices

variable {m : AliasMap}

/-- The aliases of a map of first choices are those of its letters, in order. -/
theorem FirstChoices.aliases_eq (h : m.FirstChoices) : m.aliases = m.letters.map baseAlias := by
  have hp : m.pairs.map Prod.snd = m.pairs.map fun p => baseAlias p.1 :=
    List.map_congr_left h.eq_baseAlias
  simp only [aliases, letters, hp, List.map_map]
  rfl

/-- No two letters have the same alias. -/
theorem FirstChoices.nodup_aliases (h : m.FirstChoices) : m.aliases.Nodup := by
  rw [h.aliases_eq]
  exact List.Pairwise.map _ (fun _ _ hne he => hne (baseAlias_injective he))
    h.indexed.nodup_letters

/-- No alias is a reserved word. -/
theorem FirstChoices.not_isReserved_of_mem (h : m.FirstChoices) {word : Text}
    (hw : word ∈ m.aliases) : Keyword.isReserved word = false := by
  rw [h.aliases_eq] at hw
  obtain ⟨letter, _, rfl⟩ := List.mem_map.mp hw
  exact not_isReserved_baseAlias letter

end FirstChoices

/-- How an alias map stands to the requests that it was built by. -/
structure Consistent (m : AliasMap) (asked : List Char) : Prop where
  /-- The letters are the requested characters in the order of the first requests. -/
  letters_eq : m.letters = asked.eraseDups
  nodup_letters : m.letters.Nodup
  /-- The index has for each letter the position of its own pair, and nothing else. -/
  position?_eq_some_iff (letter : Char) (i : Nat) :
    m.position? letter = some i ↔ ∃ word, m.pairs[i]? = some (letter, word)
  /-- The alias that is found for a letter is the one beside it. -/
  get?_eq_some_iff (letter : Char) (word : Text) :
    m.get? letter = some word ↔ (letter, word) ∈ m.pairs
  /-- A character has an alias exactly if it was asked for. -/
  isSome_get?_iff (letter : Char) : (m.get? letter).isSome = true ↔ letter ∈ asked
  /-- The alias that a request gives is the one that is found afterwards. -/
  get?_add_self (letter : Char) : (m.add letter).get? letter = some (m.aliasFor letter)
  /-- Pairs stay as they are when more is asked for. -/
  prefix_pairs (later : List Char) : m.pairs <+: (m.addAll later).pairs
  nodup_aliases : m.aliases.Nodup
  not_isReserved (word : Text) : word ∈ m.aliases → Keyword.isReserved word = false

/-- **Aliases on request**: after any requests an alias map is consistent with them,
and the alias of a character does not depend on what was asked for before it. -/
theorem consistent_addAll_empty (asked : List Char) :
    (empty.addAll asked).Consistent asked ∧
      ∀ letter earlier,
        (empty.addAll asked).aliasFor letter = (empty.addAll earlier).aliasFor letter := by
  have hf (requests : List Char) : (empty.addAll requests).FirstChoices :=
    firstChoices_empty.addAll requests
  have hm : (empty.addAll asked).FirstChoices := hf asked
  have hl : (empty.addAll asked).letters = asked.eraseDups := by
    have hn : (asked.filter fun c => c ∉ empty.letters) = asked :=
      List.filter_eq_self.mpr fun c _ => by simp [empty, letters]
    have h := indexed_empty.letters_addAll asked
    rwa [hn] at h
  constructor
  · exact {
      letters_eq := hl
      nodup_letters := hm.indexed.nodup_letters
      position?_eq_some_iff := fun letter i => by
        rw [hm.indexed letter i, getElem?_letters]
        simp
      get?_eq_some_iff := fun letter word => hm.indexed.get?_eq_some_iff
      isSome_get?_iff := fun letter => by
        rw [hm.indexed.isSome_get?_iff, hl, List.mem_eraseDups]
      get?_add_self := hm.indexed.get?_add_self
      prefix_pairs := prefix_pairs_addAll (empty.addAll asked)
      nodup_aliases := hm.nodup_aliases
      not_isReserved := fun word hw => hm.not_isReserved_of_mem hw }
  · intro letter earlier
    rw [hm.aliasFor_eq, (hf earlier).aliasFor_eq]

end LuaReveal.Naming.AliasMap
