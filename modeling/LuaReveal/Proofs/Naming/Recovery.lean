import LuaReveal.Proofs.Naming.OnePass
import LuaReveal.Proofs.Text.Words

/-!
# LuaReveal.Proofs.Naming.Recovery

Renaming loses nothing.  A substitution by names puts a whole word in the place
of a whole word, so what it did can be undone word by word where the words it puts
in are new to the text (`ByNames.mapWords_substitute`).  The aliases of a renaming
say which letter a word stands for, and with them the source text is recovered
(`restored_rename`).
-/

namespace LuaReveal.Naming

open Text (isWord isWordAt words mapWords)

/-! ## Undoing a substitution -/

section Undo

variable {f : Char → Option Text} {g : Text → Text} {prev : Option Char} {s : Text}

/-- A substitution by names is undone word by word by what turns the names into
their letters and keeps the words of the text. -/
theorem ByNames.mapWords_substituteAfter (hf : ByNames f)
    (hg : ∀ c w, f c = some w → g w = [c]) (hk : ∀ w ∈ words s, g w = w)
    (hp : isWordAt prev = false ∨ isWordAt s.head? = false) :
    mapWords g (substituteAfter f prev s) = s := by
  induction s using Text.words_induction generalizing prev with
  | nil => exact Text.mapWords_nil g
  | plain c s hc ih =>
      have hn : f c = none := by
        cases h : f c with
        | none => rfl
        | some w => simp [hf.isWord_of_eq_some h] at hc
      rw [Text.words_cons_of_not hc] at hk
      have hp' : isWordAt (some c) = false := hc
      rw [substituteAfter_cons_of_none hn, Text.mapWords_cons_of_not g hc, ih hk (.inl hp')]
  | word w s hne hw hs ih =>
      rw [Text.words_append hne hw hs] at hk
      have hh (p : Option Char) : isWordAt (substituteAfter f p s).head? = false := by
        rw [hf.isWordAt_head?_substituteAfter, hs]
      have hrest (p : Option Char) : mapWords g (substituteAfter f p s) = s :=
        ih (fun v hv => hk v (List.mem_cons_of_mem w hv)) (.inr hs)
      have hkeep (p : Option Char) : mapWords g (w ++ substituteAfter f p s) = w ++ s := by
        rw [Text.mapWords_append g hne hw (hh p), hk w List.mem_cons_self, hrest]
      match w with
      | [] => exact absurd rfl hne
      | a :: b :: u =>
          have ha : isWord a = true := hw a List.mem_cons_self
          rw [substituteAfter_word_append hw (by simp) ha]
          exact hkeep (some a)
      | [c] =>
          rcases substituteAfter_cons_cases f prev c s with ⟨v, _, hv, he⟩ | ⟨_, he⟩
          · -- The name that stands for the letter is a word by itself as well.
            have hvn : v ≠ [] := by
              rintro rfl
              simpa using hf.two_le_length hv
            rw [List.singleton_append, he,
              Text.mapWords_append g hvn (fun d => hf.isWord_of_mem hv) (hh (some c)),
              hg c v hv, hrest]
            rfl
          · rw [List.singleton_append, he]
            exact hkeep (some c)

end Undo

/-! ## Recovering the source text -/

/-- The letter that a word is the alias of, or the word itself. -/
def letterOf (renamed : List (Char × Text)) (word : Text) : Text :=
  match renamed.find? fun p => p.2 == word with
  | some p => [p.1]
  | none => word

/-- The text with each word that is the alias of a letter replaced by the letter. -/
def restored (renamed : List (Char × Text)) (code : Text) : Text :=
  mapWords (letterOf renamed) code

section Letters

variable {letters letters' : List Char} {c : Char} {word : Text}

theorem letterOf_baseAlias (h : c ∈ letters) :
    letterOf (letters.map fun c => (c, baseAlias c)) (baseAlias c) = [c] := by
  unfold letterOf
  split
  · next p hp =>
    obtain ⟨d, _, rfl⟩ := List.mem_map.mp (List.mem_of_find?_eq_some hp)
    have he : baseAlias d = baseAlias c := by simpa using List.find?_some hp
    rw [baseAlias_injective he]
  · next hn =>
    have hne := List.find?_eq_none.mp hn (c, baseAlias c) (List.mem_map.mpr ⟨c, h, rfl⟩)
    simp at hne

theorem letterOf_of_ne (h : ∀ c ∈ letters, baseAlias c ≠ word) :
    letterOf (letters.map fun c => (c, baseAlias c)) word = word := by
  have hn : (letters.map fun c => (c, baseAlias c)).find? (fun p => p.2 == word) = none := by
    simpa [List.find?_eq_none] using h
  rw [letterOf, hn]

/-- It matters only which letters there are. -/
theorem letterOf_congr (h : ∀ c, c ∈ letters ↔ c ∈ letters') :
    letterOf (letters.map fun c => (c, baseAlias c)) =
      letterOf (letters'.map fun c => (c, baseAlias c)) := by
  funext word
  by_cases hw : ∃ c ∈ letters, baseAlias c = word
  · obtain ⟨c, hc, rfl⟩ := hw
    rw [letterOf_baseAlias hc, letterOf_baseAlias ((h c).mp hc)]
  · rw [letterOf_of_ne fun c hc he => hw ⟨c, hc, he⟩,
      letterOf_of_ne fun c hc he => hw ⟨c, (h c).mpr hc, he⟩]

end Letters

/-- A source text is recovered from the substitution of its declared letters if no
first choice of theirs is a word of it. -/
theorem mapWords_substitute_declared {source : Text}
    (h : ∀ c ∈ declaredLetters source, baseAlias c ∉ words source) :
    mapWords (letterOf ((declaredLetters source).map fun c => (c, baseAlias c)))
      (substitute (chosen (declaredLetters source)) source) = source := by
  have hf : ByNames (chosen (declaredLetters source)) :=
    byNames_chosen fun c hc => isWord_of_mem_declaredLetters hc
  refine hf.mapWords_substituteAfter (fun c w hw => ?_) (fun w hw => ?_) (.inl rfl)
  · obtain ⟨hc, rfl⟩ := chosen_eq_some_iff.mp hw
    exact letterOf_baseAlias hc
  · exact letterOf_of_ne fun c hc he => h c hc (he ▸ hw)

/-- **Recovery**: where no alias of a renamed letter is a word of the source text,
the source text comes back when each word of the renamed text that is such an alias
is replaced by its letter.  So two such source texts with the same renamed letters
and the same renamed text are equal, whatever was asked for before. -/
theorem restored_rename {asked : List Char} {source : Text}
    (h : ∀ p ∈ (rename (AliasMap.empty.addAll asked) source).renamed, p.2 ∉ words source) :
    let r := rename (AliasMap.empty.addAll asked) source
    restored r.renamed r.code = source ∧
      ∀ asked' source',
        let r' := rename (AliasMap.empty.addAll asked') source'
        (∀ p ∈ r'.renamed, p.2 ∉ words source') →
          (∀ c, c ∈ r.renamed.map Prod.fst ↔ c ∈ r'.renamed.map Prod.fst) →
            r.code = r'.code → source = source' := by
  have hr (asked : List Char) (source : Text) :=
    rename_eq (AliasMap.firstChoices_empty.addAll asked) source
  have hrestored {asked : List Char} {source : Text}
      (h : ∀ p ∈ (rename (AliasMap.empty.addAll asked) source).renamed, p.2 ∉ words source) :
      mapWords (letterOf ((declaredLetters source).map fun c => (c, baseAlias c)))
        (rename (AliasMap.empty.addAll asked) source).code = source := by
    rw [hr] at h ⊢
    exact mapWords_substitute_declared fun c hc => h (c, baseAlias c) (List.mem_map.mpr ⟨c, hc, rfl⟩)
  refine ⟨?_, fun asked' source' h' hl hc => ?_⟩
  · have hs := hrestored h
    rwa [show (declaredLetters source).map (fun c => (c, baseAlias c)) = _ from
      (congrArg Renaming.renamed (hr asked source)).symm] at hs
  · have hd : ∀ c, c ∈ declaredLetters source ↔ c ∈ declaredLetters source' := by
      simpa [hr, Function.comp_def] using hl
    rw [← hrestored h, ← hrestored h', letterOf_congr hd, hc]

/-- A text with a letter in a longer word, in an escape and in a literal. -/
theorem restored_rename_escape :
    let source := "local n=1 f(n,n_,\"\\n n\")".toList
    let r := rename (AliasMap.empty.addAll ['n', 'x']) source
    (∀ p ∈ r.renamed, p.2 ∉ words source) ∧
      restored r.renamed r.code = source ∧
        ∀ asked' source',
          let r' := rename (AliasMap.empty.addAll asked') source'
          (∀ p ∈ r'.renamed, p.2 ∉ words source') →
            (∀ c, c ∈ r.renamed.map Prod.fst ↔ c ∈ r'.renamed.map Prod.fst) →
              r.code = r'.code → source = source' :=
  have h : ∀ p ∈ (rename (AliasMap.empty.addAll ['n', 'x'])
      "local n=1 f(n,n_,\"\\n n\")".toList).renamed,
      p.2 ∉ words "local n=1 f(n,n_,\"\\n n\")".toList := by
    decide +kernel
  ⟨h, restored_rename h⟩

end LuaReveal.Naming
