import LuaReveal.Proofs.Naming.OnePass

/-!
# LuaReveal.Proofs.Naming.Settled

A renamed text is settled: it declares no letter any more, so renaming it again
changes neither the text nor the aliases (`rename_rename`).

What it means that a text declares a letter is said by `Declares`, part by part, and
the recogniser finds exactly these declarations (`mem_occurrences_iff_declares`).
-/

namespace LuaReveal.Naming

open Text (isWordAt isAsciiLetter isBlank afterBlanks? afterBlanks?_append dropBlanks takeBlanks
  occurrences)

/-! ## Declarations -/

/-- The text declares a letter: no word runs into the keyword, and behind it come
one or more blanks, the letter, and the sign with any blanks before it. -/
def Declares (keyword : Text) (sign letter : Char) (s : Text) : Prop :=
  ∃ before blanks gap after,
    s = before ++ (keyword ++ (blanks ++ letter :: (gap ++ sign :: after))) ∧
      isWordAt before.getLast? = false ∧ blanks ≠ [] ∧ (∀ b ∈ blanks, isBlank b = true) ∧
      isAsciiLetter letter = true ∧ ∀ b ∈ gap, isBlank b = true

section Parts

variable {sign letter : Char} {s : Text}

/-- A sign that is no blank is the first character behind the blanks exactly if the
text is blanks, the sign and a rest. -/
theorem head?_dropBlanks_eq_some_iff (hs : isBlank sign = false) :
    (dropBlanks s).head? = some sign ↔
      ∃ gap after, s = gap ++ sign :: after ∧ ∀ b ∈ gap, isBlank b = true := by
  constructor
  · intro h
    obtain ⟨after, ha⟩ := List.head?_eq_some_iff.mp h
    exact ⟨takeBlanks s, after, by rw [← ha, Text.takeBlanks_append_dropBlanks],
      fun _ => Text.isBlank_of_mem_takeBlanks⟩
  · rintro ⟨gap, after, rfl, hg⟩
    rw [Text.dropBlanks_append hg, Text.dropBlanks_cons_of_not hs]
    rfl

/-- The letter at the front of a text is read if the sign follows it. -/
theorem letterAt?_eq_some_iff (hs : isBlank sign = false) :
    letterAt? sign s = some letter ↔
      isAsciiLetter letter = true ∧
        ∃ gap after, s = letter :: (gap ++ sign :: after) ∧ ∀ b ∈ gap, isBlank b = true := by
  cases s with
  | nil => simp [letterAt?]
  | cons c s =>
      simp only [letterAt?, Option.ite_none_right_eq_some, Option.some.injEq,
        head?_dropBlanks_eq_some_iff hs, List.cons.injEq]
      constructor
      · rintro ⟨⟨hl, gap, after, he, hg⟩, rfl⟩
        exact ⟨hl, gap, after, ⟨rfl, he⟩, hg⟩
      · rintro ⟨hl, gap, after, ⟨rfl, he⟩, hg⟩
        exact ⟨⟨hl, gap, after, he, hg⟩, rfl⟩

end Parts

/-- The letters that are found by a keyword and a sign are those that the text
declares by them. -/
theorem mem_occurrences_iff_declares {keyword : Text} {sign letter : Char}
    (hs : isBlank sign = false) {s : Text} :
    letter ∈ occurrences (declaredLetter? keyword sign) s ↔ Declares keyword sign letter s := by
  rw [Text.mem_occurrences_iff]
  constructor
  · rintro ⟨before, rest, rfl, _, hf⟩
    have hlast : Text.lastAfter none before = before.getLast? := by simp [Text.lastAfter]
    cases hp : isWordAt (Text.lastAfter none before) with
    | true => simp [declaredLetter?_of_isWordAt hp] at hf
    | false =>
        rw [declaredLetter?_of_not hp] at hf
        obtain ⟨t, ht, hb⟩ := Option.bind_eq_some_iff.mp hf
        obtain ⟨u, hu, hl⟩ := Option.bind_eq_some_iff.mp hb
        obtain ⟨blanks, hn, hbl, rfl⟩ := Text.eq_of_afterBlanks? hu
        obtain ⟨hletter, gap, after, rfl, hg⟩ := (letterAt?_eq_some_iff hs).mp hl
        exact ⟨before, blanks, gap, after, by rw [Text.after?_eq_some_iff.mp ht], hlast ▸ hp, hn,
          hbl, hletter, hg⟩
  · rintro ⟨before, blanks, gap, after, rfl, hp, hn, hb, hl, hg⟩
    have hlast : Text.lastAfter none before = before.getLast? := by simp [Text.lastAfter]
    have hc : isBlank letter = false :=
      Text.isBlank_of_isWord (Text.isWord_of_isAsciiLetter hl)
    refine ⟨before, _, rfl, by simp [hn], ?_⟩
    rw [declaredLetter?_of_not (hlast ▸ hp), Text.after?_append, Option.bind_some, letterBefore?,
      afterBlanks?_append hn hb hc, Option.bind_some, letterAt?_eq_some_iff hs]
    exact ⟨hl, gap, after, rfl, hg⟩

/-! ## Renaming once more -/

/-- The declared letters are those declared as locals or as functions. -/
theorem mem_declaredLetters {source : Text} {c : Char} :
    c ∈ declaredLetters source ↔ c ∈ localLetters source ∨ c ∈ functionLetters source := by
  by_cases h : c ∈ localLetters source <;> simp [declaredLetters, h]

/-- Once the declared letters are replaced, nothing is declared by a keyword and a
sign whose letters are among them. -/
theorem occurrences_substitute_declared {keyword : Text} {sign : Char}
    (hk : ∀ d ∈ keyword, Text.isWord d = true) (hl : 2 ≤ keyword.length)
    (hr : Keyword.isReserved keyword = true) (hs : Text.isWord sign = false) {source : Text}
    (hd : ∀ c ∈ occurrences (declaredLetter? keyword sign) source, c ∈ declaredLetters source) :
    occurrences (declaredLetter? keyword sign)
      (substitute (chosen (declaredLetters source)) source) = [] := by
  have hf : ByNames (chosen (declaredLetters source)) :=
    byNames_chosen fun c hc => isWord_of_mem_declaredLetters hc
  have ho : occurrences (declaredLetter? keyword sign)
      (substitute (chosen (declaredLetters source)) source) =
        (occurrences (declaredLetter? keyword sign) source).filter fun c =>
          (chosen (declaredLetters source) c).isNone :=
    hf.occurrencesAfter_substituteAfter hk hl hr hs source
  rw [ho, List.filter_eq_nil_iff]
  exact fun c hc => by simp [chosen, hd c hc]

/-- A renamed text declares no local of one letter. -/
theorem occurrences_local_rename {m : AliasMap} (hm : m.FirstChoices) (source : Text) :
    occurrences (declaredLetter? "local".toList '=') (rename m source).code = [] := by
  rw [rename_eq hm]
  exact occurrences_substitute_declared (List.all_eq_true.mp (by decide)) (by decide) (by decide)
    (by decide) fun c hc => mem_declaredLetters.mpr (.inl (List.mem_eraseDups.mpr hc))

/-- A renamed text declares no function of one letter. -/
theorem occurrences_function_rename {m : AliasMap} (hm : m.FirstChoices) (source : Text) :
    occurrences (declaredLetter? "function".toList '(') (rename m source).code = [] := by
  rw [rename_eq hm]
  exact occurrences_substitute_declared (List.all_eq_true.mp (by decide)) (by decide) (by decide)
    (by decide) fun c hc => mem_declaredLetters.mpr (.inr (List.mem_eraseDups.mpr hc))

/-- A text that declares no letter is not changed, and no alias is asked for. -/
theorem rename_of_letters_eq_nil {source : Text} (hl : localLetters source = [])
    (hf : functionLetters source = []) (m : AliasMap) : rename m source = ⟨source, m, []⟩ := by
  simp [rename, hl, hf]

/-- **Renaming is settled**: with aliases that were asked for in any order, a renamed
text declares no letter, neither as a local nor as a function, and renaming it again
with the aliases that it was left with keeps the text and the aliases. -/
theorem rename_rename (asked : List Char) (source : Text) :
    let r := rename (AliasMap.empty.addAll asked) source
    (∀ letter, ¬ Declares "local".toList '=' letter r.code) ∧
      (∀ letter, ¬ Declares "function".toList '(' letter r.code) ∧
      rename r.aliases r.code = ⟨r.code, r.aliases, []⟩ := by
  intro r
  have hm : (AliasMap.empty.addAll asked).FirstChoices := AliasMap.firstChoices_empty.addAll asked
  have hlocal : occurrences (declaredLetter? "local".toList '=') r.code = [] :=
    occurrences_local_rename hm source
  have hfunction : occurrences (declaredLetter? "function".toList '(') r.code = [] :=
    occurrences_function_rename hm source
  refine ⟨fun letter h => ?_, fun letter h => ?_, rename_of_letters_eq_nil ?_ ?_ r.aliases⟩
  · rw [← mem_occurrences_iff_declares (by decide), hlocal] at h
    exact List.not_mem_nil h
  · rw [← mem_occurrences_iff_declares (by decide), hfunction] at h
    exact List.not_mem_nil h
  · rw [localLetters, hlocal, List.eraseDups_nil]
  · rw [functionLetters, hfunction, List.eraseDups_nil]

end LuaReveal.Naming
