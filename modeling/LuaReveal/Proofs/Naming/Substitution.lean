import LuaReveal.Naming.Renaming
import LuaReveal.Proofs.Naming.Choice

/-!
# LuaReveal.Proofs.Naming.Substitution

Substitutions one after another are one substitution.  A substitution by names
puts a word of more than one character in the place of a word of one, so it
moves no border of a word, brings no character to stand alone, and a later
substitution sees every other character as it was (`substitute_substitute`).
Renaming letter by letter is therefore the substitution of all letters at once
(`foldl_step`).
-/

namespace LuaReveal.Naming

open Text (isWord isWordAt isAsciiLetter isBorder)

/-! ## Substitutions by names -/

/-- A substitution that replaces word characters only, each by a word of more
than one character that is not reserved. -/
structure ByNames (f : Char → Option Text) : Prop where
  isWord_of_eq_some {c : Char} {w : Text} : f c = some w → isWord c = true
  isWord_of_mem {c d : Char} {w : Text} : f c = some w → d ∈ w → isWord d = true
  two_le_length {c : Char} {w : Text} : f c = some w → 2 ≤ w.length
  not_isReserved {c : Char} {w : Text} : f c = some w → Keyword.isReserved w = false

/-- There is nothing for a character that is no word character. -/
theorem ByNames.eq_none_of_not_isWord {f : Char → Option Text} (hf : ByNames f) {c : Char}
    (hc : isWord c = false) :
    f c = none := by
  cases hw : f c with
  | none => rfl
  | some w =>
      have h := hf.isWord_of_eq_some hw
      rw [hc] at h
      contradiction

/-- The letters with their first choices. -/
def chosen (letters : List Char) (c : Char) : Option Text :=
  if c ∈ letters then some (baseAlias c) else none

theorem chosen_eq_some_iff {letters : List Char} {c : Char} {w : Text} :
    chosen letters c = some w ↔ c ∈ letters ∧ w = baseAlias c := by
  unfold chosen
  by_cases h : c ∈ letters
  · simp [h, eq_comm]
  · simp [h]

/-- The first choices of word characters are names. -/
theorem byNames_chosen {letters : List Char} (h : ∀ c ∈ letters, isWord c = true) :
    ByNames (chosen letters) where
  isWord_of_eq_some hf := h _ (chosen_eq_some_iff.mp hf).1
  isWord_of_mem hf hd := by
    obtain ⟨hc, rfl⟩ := chosen_eq_some_iff.mp hf
    exact isWord_of_mem_baseAlias (h _ hc) hd
  two_le_length hf := by
    rw [(chosen_eq_some_iff.mp hf).2]
    exact two_le_length_baseAlias _
  not_isReserved hf := by
    rw [(chosen_eq_some_iff.mp hf).2]
    exact not_isReserved_baseAlias _

/-! ## One character -/

section Char

variable {f : Char → Option Text} {prev prev' : Option Char} {c : Char} {s : Text} {w : Text}

/-- A character that stands alone has borders of a word on both sides if it is
a word character. -/
theorem standsAlone_iff_isBorder (hc : isWord c = true) :
    standsAlone prev s = true ↔
      isBorder prev (c :: s) = true ∧ isBorder (some c) s = true ∧ prev ≠ some '\\' := by
  simp only [standsAlone, isBorder, List.head?_cons, Text.isWordAt_some, hc, bne_iff_ne,
    Bool.and_eq_true, Bool.not_eq_true', ne_eq, Bool.not_eq_true]
  constructor
  · rintro ⟨⟨h₁, h₂⟩, h₃⟩
    exact ⟨h₁, by simp [h₃], h₂⟩
  · rintro ⟨h₁, h₂, h₃⟩
    exact ⟨⟨h₁, h₃⟩, by simpa using h₂⟩

theorem standsAlone_of_isWordAt_prev (h : isWordAt prev = true) (s : Text) :
    standsAlone prev s = false := by
  simp [standsAlone, h]

theorem standsAlone_of_isWordAt_head? (h : isWordAt s.head? = true) (prev : Option Char) :
    standsAlone prev s = false := by
  simp [standsAlone, h]

theorem substituteAfter_cons_of_some (hs : standsAlone prev s = true) (hf : f c = some w) :
    substituteAfter f prev (c :: s) = w ++ substituteAfter f (some c) s := by
  rw [substituteAfter, if_pos hs, hf, Option.getD_some]

theorem substituteAfter_cons_of_none (hf : f c = none) :
    substituteAfter f prev (c :: s) = c :: substituteAfter f (some c) s := by
  rw [substituteAfter, hf, Option.getD_none, ite_self, List.singleton_append]

theorem substituteAfter_cons_of_not (hs : standsAlone prev s = false) :
    substituteAfter f prev (c :: s) = c :: substituteAfter f (some c) s := by
  rw [substituteAfter, if_neg (by simp [hs]), List.singleton_append]

/-- A character is replaced if it stands alone and there is something for it,
and it stays otherwise. -/
theorem substituteAfter_cons_cases (f : Char → Option Text) (prev : Option Char) (c : Char)
    (s : Text) :
    (∃ w, standsAlone prev s = true ∧ f c = some w ∧
        substituteAfter f prev (c :: s) = w ++ substituteAfter f (some c) s) ∨
      (standsAlone prev s = false ∨ f c = none) ∧
        substituteAfter f prev (c :: s) = c :: substituteAfter f (some c) s := by
  cases hs : standsAlone prev s with
  | false => exact .inr ⟨.inl rfl, substituteAfter_cons_of_not hs⟩
  | true =>
      cases hf : f c with
      | none => exact .inr ⟨.inr rfl, substituteAfter_cons_of_none hf⟩
      | some w => exact .inl ⟨w, rfl, rfl, substituteAfter_cons_of_some hs hf⟩

/-- Of the character before a text it matters only whether it is a word
character and whether it is a backslash. -/
theorem substituteAfter_congr (hw : isWordAt prev = isWordAt prev')
    (hb : prev = some '\\' ↔ prev' = some '\\') (s : Text) :
    substituteAfter f prev s = substituteAfter f prev' s := by
  cases s with
  | nil => rfl
  | cons c s =>
      have hn : (prev != some '\\') = (prev' != some '\\') := by
        rw [Bool.eq_iff_iff, bne_iff_ne, bne_iff_ne]
        exact not_congr hb
      have hs : standsAlone prev s = standsAlone prev' s := by
        rw [standsAlone, standsAlone, hw, hn]
      rw [substituteAfter, substituteAfter, hs]

theorem ne_backslash_of_isWordAt (h : isWordAt prev = true) : prev ≠ some '\\' := by
  rintro rfl
  revert h
  decide

/-- After any word character a text is substituted in the same way. -/
theorem substituteAfter_congr_of_isWordAt (h : isWordAt prev = true)
    (h' : isWordAt prev' = true) (s : Text) :
    substituteAfter f prev s = substituteAfter f prev' s := by
  refine substituteAfter_congr (h.trans h'.symm) ?_ s
  exact iff_of_false (ne_backslash_of_isWordAt h) (ne_backslash_of_isWordAt h')

end Char

/-! ## Words -/

section Word

variable {f : Char → Option Text} {prev : Option Char} {u w : Text}

/-- Within a word nothing is replaced. -/
theorem substituteAfter_append_of_isWordAt (hp : isWordAt prev = true)
    (hu : ∀ d ∈ u, isWord d = true) (s : Text) :
    substituteAfter f prev (u ++ s) = u ++ substituteAfter f prev s := by
  induction u with
  | nil => rfl
  | cons d u ih =>
      have hd : isWordAt (some d) = true := hu d List.mem_cons_self
      rw [List.cons_append, substituteAfter_cons_of_not (standsAlone_of_isWordAt_prev hp _),
        substituteAfter_congr_of_isWordAt hd hp, ih fun e he => hu e (List.mem_cons_of_mem d he)]
      rfl

/-- A word of more than one character stays. -/
theorem substituteAfter_word_append (hw : ∀ d ∈ w, isWord d = true) (hl : 2 ≤ w.length)
    {c : Char} (hc : isWord c = true) (s : Text) :
    substituteAfter f prev (w ++ s) = w ++ substituteAfter f (some c) s := by
  match w with
  | [] | [_] => simp at hl
  | a :: b :: u =>
      have ha : isWordAt (some a) = true := hw a List.mem_cons_self
      have hb : isWordAt (b :: (u ++ s)).head? = true :=
        hw b (List.mem_cons_of_mem a List.mem_cons_self)
      have hu : ∀ d ∈ b :: u, isWord d = true := fun d hd => hw d (List.mem_cons_of_mem a hd)
      rw [List.cons_append, List.cons_append,
        substituteAfter_cons_of_not (standsAlone_of_isWordAt_head? hb prev),
        ← List.cons_append, substituteAfter_append_of_isWordAt ha hu,
        substituteAfter_congr_of_isWordAt ha (show isWordAt (some c) = true from hc)]
      rfl

end Word

/-! ## Substitution after substitution -/

section Compose

variable {f g : Char → Option Text}

/-- A substitution by names keeps whether a text starts with a word character. -/
theorem ByNames.isWordAt_head?_substituteAfter (hf : ByNames f) (prev : Option Char) (s : Text) :
    isWordAt (substituteAfter f prev s).head? = isWordAt s.head? := by
  cases s with
  | nil => rfl
  | cons c s =>
      rcases substituteAfter_cons_cases f prev c s with ⟨w, _, hw, he⟩ | ⟨_, he⟩
      · have hl := hf.two_le_length hw
        match w with
        | [] => simp at hl
        | a :: w =>
            have ha : isWord a = true := hf.isWord_of_mem hw List.mem_cons_self
            have hc : isWord c = true := hf.isWord_of_eq_some hw
            rw [he]
            simp [ha, hc]
      · rw [he]
        rfl

/-- A substitution by names keeps whether a character stands alone before a
text. -/
theorem ByNames.standsAlone_substituteAfter (hf : ByNames f) (prev prev' : Option Char)
    (s : Text) : standsAlone prev (substituteAfter f prev' s) = standsAlone prev s := by
  simp only [standsAlone, hf.isWordAt_head?_substituteAfter]

/-- A substitution after one by names replaces what the first one left. -/
theorem ByNames.substituteAfter_substituteAfter (hf : ByNames f) (prev : Option Char) (s : Text) :
    substituteAfter g prev (substituteAfter f prev s) =
      substituteAfter (fun c => (f c).or (g c)) prev s := by
  induction s generalizing prev with
  | nil => rfl
  | cons c s ih =>
      rcases substituteAfter_cons_cases f prev c s with ⟨w, hs, hw, he⟩ | ⟨hk, he⟩
      · have hor : (f c).or (g c) = some w := by rw [hw, Option.some_or]
        rw [he, substituteAfter_word_append (fun d hd => hf.isWord_of_mem hw hd)
            (hf.two_le_length hw) (hf.isWord_of_eq_some hw), ih,
          substituteAfter_cons_of_some (f := fun c => (f c).or (g c)) hs hor]
      · rw [he]
        cases hs : standsAlone prev s with
        | false =>
            rw [substituteAfter_cons_of_not (by rw [hf.standsAlone_substituteAfter, hs]), ih,
              substituteAfter_cons_of_not hs]
        | true =>
            have hor : (f c).or (g c) = g c := by
              rw [hk.resolve_left (by simp [hs]), Option.none_or]
            rw [substituteAfter, substituteAfter, hf.standsAlone_substituteAfter, hor, ih]

theorem ByNames.substitute_substitute (hf : ByNames f) (s : Text) :
    substitute g (substitute f s) = substitute (fun c => (f c).or (g c)) s :=
  hf.substituteAfter_substituteAfter none s

end Compose

/-! ## Letter by letter -/

/-- Replacing one letter by its first choice. -/
theorem replaceLetter_baseAlias (letter : Char) (s : Text) :
    replaceLetter letter (baseAlias letter) s = substitute (chosen [letter]) s := by
  rw [replaceLetter]
  congr 1
  funext c
  by_cases h : c = letter <;> simp [chosen, h]

/-- Letters chosen first and letters chosen after them are letters chosen at
once. -/
theorem chosen_or_chosen (letters more : List Char) :
    (fun c => (chosen letters c).or (chosen more c)) = chosen (letters ++ more) := by
  funext c
  by_cases h : c ∈ letters <;> simp [chosen, h]

theorem substitute_chosen_chosen {letters : List Char} (h : ∀ c ∈ letters, isWord c = true)
    (more : List Char) (s : Text) :
    substitute (chosen more) (substitute (chosen letters) s) =
      substitute (chosen (letters ++ more)) s := by
  rw [(byNames_chosen h).substitute_substitute, chosen_or_chosen]

theorem substitute_chosen_nil (s : Text) : substitute (chosen []) s = s := by
  have h (prev : Option Char) : substituteAfter (chosen []) prev s = s := by
    induction s generalizing prev with
    | nil => rfl
    | cons c s ih => rw [substituteAfter_cons_of_none (by simp [chosen]), ih]
  exact h none

/-- Renaming letter by letter substitutes the first choices of all letters at
once, and asks for their aliases in order. -/
theorem foldl_step {r : Renaming} (hr : r.aliases.FirstChoices) {letters : List Char}
    (hl : ∀ c ∈ letters, isWord c = true) :
    letters.foldl Renaming.step r =
      ⟨substitute (chosen letters) r.code, r.aliases.addAll letters,
        r.renamed ++ letters.map fun c => (c, baseAlias c)⟩ := by
  induction letters generalizing r with
  | nil => simp [substitute_chosen_nil, AliasMap.addAll]
  | cons letter letters ih =>
      have hs : r.step letter =
          ⟨substitute (chosen [letter]) r.code, r.aliases.add letter,
            r.renamed ++ [(letter, baseAlias letter)]⟩ := by
        rw [Renaming.step, hr.aliasFor_eq, replaceLetter_baseAlias]
      have hw : ∀ c ∈ [letter], isWord c = true := fun c hc =>
        hl c (List.mem_cons.mpr (.inl (List.mem_singleton.mp hc)))
      rw [List.foldl_cons, hs, ih (hr.add letter) fun c hc => hl c (List.mem_cons_of_mem _ hc),
        substitute_chosen_chosen hw]
      simp [AliasMap.addAll]

end LuaReveal.Naming
