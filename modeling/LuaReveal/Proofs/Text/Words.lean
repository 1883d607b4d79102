import LuaReveal.Text.Word

/-!
# LuaReveal.Proofs.Text.Words

A text as its words and the characters between them.  `words_induction` is the
induction along this reading: a text is empty, it starts with a character that is
no word character, or it starts with a word that ends before the rest.  `words`
and `mapWords`, which replaces the words of a text, have one equation for each of
these cases.
-/

namespace LuaReveal.Text

/-- The text with each of its words replaced as `f` says. -/
def mapWords (f : Text → Text) : Text → Text
  | [] => []
  | c :: s =>
    if isWord c then f (c :: s.takeWhile isWord) ++ mapWords f (s.dropWhile isWord)
    else c :: mapWords f s
termination_by s => s.length
decreasing_by
  · have h := (List.dropWhile_suffix (l := s) isWord).length_le
    simp only [List.length_cons]
    omega
  · simp

section Word

variable {w s : Text}

/-- The word characters at the front of a text that a word starts. -/
theorem takeWhile_word_append (hw : ∀ c ∈ w, isWord c = true) (hs : isWordAt s.head? = false) :
    (w ++ s).takeWhile isWord = w := by
  rw [List.takeWhile_append_of_pos hw]
  cases s with
  | nil => simp
  | cons c s => simp [show isWord c = false from hs]

/-- What is left of a text behind the word that it starts with. -/
theorem dropWhile_word_append (hw : ∀ c ∈ w, isWord c = true) (hs : isWordAt s.head? = false) :
    (w ++ s).dropWhile isWord = s := by
  rw [List.dropWhile_append_of_pos hw]
  cases s with
  | nil => simp
  | cons c s => simp [show isWord c = false from hs]

/-- What is left behind the word characters at the front starts with none. -/
theorem isWordAt_head?_dropWhile (s : Text) : isWordAt (s.dropWhile isWord).head? = false := by
  have h := List.head?_dropWhile_not isWord s
  cases hd : (s.dropWhile isWord).head? with
  | none => rfl
  | some c => simpa [hd] using h

end Word

/-- Induction along the words of a text. -/
@[elab_as_elim]
theorem words_induction {motive : Text → Prop}
    (nil : motive [])
    (plain : ∀ c s, isWord c = false → motive s → motive (c :: s))
    (word : ∀ w s, w ≠ [] → (∀ c ∈ w, isWord c = true) → isWordAt s.head? = false →
      motive s → motive (w ++ s))
    (s : Text) : motive s := by
  match s with
  | [] => exact nil
  | c :: s =>
      cases hc : isWord c with
      | false => exact plain c s hc (words_induction nil plain word s)
      | true =>
          have hlt : (s.dropWhile isWord).length < s.length + 1 :=
            Nat.lt_succ_of_le (List.dropWhile_suffix isWord).length_le
          have hw : ∀ d ∈ c :: s.takeWhile isWord, isWord d = true := by
            intro d hd
            cases List.mem_cons.mp hd with
            | inl he => rw [he, hc]
            | inr ht => exact List.all_eq_true.mp List.all_takeWhile d ht
          have hm := word (c :: s.takeWhile isWord) (s.dropWhile isWord) (by simp) hw
            (isWordAt_head?_dropWhile s) (words_induction nil plain word (s.dropWhile isWord))
          rwa [List.cons_append, List.takeWhile_append_dropWhile] at hm
termination_by s.length

/-! ## The words of a text -/

section Words

variable {prev prev' : Option Char} {w u s : Text} {c : Char}

/-- Of the character before a text it matters for its words only whether it is a
word character. -/
theorem wordsAfter_congr (h : isWordAt prev = isWordAt prev') (s : Text) :
    wordsAfter prev s = wordsAfter prev' s := by
  cases s with
  | nil => rfl
  | cons c s => rw [wordsAfter, wordsAfter, h]

/-- The rest of a word that runs into a text is no word of it. -/
theorem wordsAfter_append_of_isWordAt (hp : isWordAt prev = true) (hu : ∀ d ∈ u, isWord d = true)
    (hs : isWordAt s.head? = false) : wordsAfter prev (u ++ s) = words s := by
  induction u generalizing prev with
  | nil =>
      cases s with
      | nil => rfl
      | cons d s =>
          have hd : isWord d = false := hs
          simp [words, wordsAfter, hd]
  | cons d u ih =>
      have hd : isWordAt (some d) = true := hu d List.mem_cons_self
      have ht := ih hd fun e he => hu e (List.mem_cons_of_mem d he)
      simp [wordsAfter, hp, ht]

theorem words_cons_of_not (hc : isWord c = false) (s : Text) : words (c :: s) = words s := by
  have h : words (c :: s) = wordsAfter (some c) s := by simp [words, wordsAfter, hc]
  rw [h]
  exact wordsAfter_congr (show isWordAt (some c) = isWordAt none from hc) s

/-- A word that ends before the rest of a text is one of the text. -/
theorem words_append (hn : w ≠ []) (hw : ∀ c ∈ w, isWord c = true)
    (hs : isWordAt s.head? = false) : words (w ++ s) = w :: words s := by
  cases w with
  | nil => exact absurd rfl hn
  | cons c u =>
      have hc : isWord c = true := hw c List.mem_cons_self
      have hu : ∀ d ∈ u, isWord d = true := fun d hd => hw d (List.mem_cons_of_mem c hd)
      have ht : wordsAfter (some c) (u ++ s) = words s := wordsAfter_append_of_isWordAt hc hu hs
      rw [List.cons_append, words, wordsAfter, ht, takeWhile_word_append hu hs]
      simp [hc]

variable (f : Text → Text)

@[simp] theorem mapWords_nil : mapWords f [] = [] := by
  rw [mapWords]

theorem mapWords_cons_of_not (hc : isWord c = false) (s : Text) :
    mapWords f (c :: s) = c :: mapWords f s := by
  rw [mapWords, hc]
  rfl

/-- A word that ends before the rest of a text is replaced as a whole. -/
theorem mapWords_append (hn : w ≠ []) (hw : ∀ c ∈ w, isWord c = true)
    (hs : isWordAt s.head? = false) : mapWords f (w ++ s) = f w ++ mapWords f s := by
  cases w with
  | nil => exact absurd rfl hn
  | cons c u =>
      have hu : ∀ d ∈ u, isWord d = true := fun d hd => hw d (List.mem_cons_of_mem c hd)
      rw [List.cons_append, mapWords, if_pos (hw c List.mem_cons_self),
        takeWhile_word_append hu hs, dropWhile_word_append hu hs]

end Words

end LuaReveal.Text
