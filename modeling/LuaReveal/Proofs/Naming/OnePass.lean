import LuaReveal.Proofs.Naming.Declared

/-!
# LuaReveal.Proofs.Naming.OnePass

Renaming is one pass over the source text.  `rename` searches twice, the second
time in a text that it has changed, and rewrites the text once for each letter;
what comes out is the source text with all letters that it declares replaced at
once (`rename_eq_replaceAlone`).
-/

namespace LuaReveal.Naming

open Text (isWord isBorder)

/-! ## The letters of a source text -/

/-- The letters that a source text declares, each once: those that it declares
as locals, then those that it declares as functions only. -/
def declaredLetters (source : Text) : List Char :=
  localLetters source ++ (functionLetters source).filter (· ∉ localLetters source)

theorem isWord_of_mem_localLetters {source : Text} {c : Char} (h : c ∈ localLetters source) :
    isWord c = true :=
  Text.isWord_of_isAsciiLetter (isAsciiLetter_of_mem_localLetters h)

/-- The letters that a source text declares are among the 26. -/
theorem isAsciiLetter_of_mem_declaredLetters {source : Text} {c : Char}
    (h : c ∈ declaredLetters source) : Text.isAsciiLetter c = true := by
  rcases List.mem_append.mp h with h | h
  · exact isAsciiLetter_of_mem_localLetters h
  · exact isAsciiLetter_of_mem_functionLetters (List.mem_filter.mp h).1

theorem isWord_of_mem_declaredLetters {source : Text} {c : Char}
    (h : c ∈ declaredLetters source) : isWord c = true :=
  Text.isWord_of_isAsciiLetter (isAsciiLetter_of_mem_declaredLetters h)

/-- Once the local letters are replaced, a text declares as functions the letters
that it did not declare as locals. -/
theorem functionLetters_substitute_locals (source : Text) :
    functionLetters (substitute (chosen (localLetters source)) source) =
      (functionLetters source).filter (· ∉ localLetters source) := by
  have hf := byNames_chosen fun c (hc : c ∈ localLetters source) => isWord_of_mem_localLetters hc
  rw [hf.functionLetters_substitute]
  refine List.filter_congr fun c _ => ?_
  by_cases hc : c ∈ localLetters source <;> simp [chosen, hc]

/-- Renaming substitutes the first choices of the declared letters and asks for
their aliases in order. -/
theorem rename_eq {m : AliasMap} (hm : m.FirstChoices) (source : Text) :
    rename m source =
      ⟨substitute (chosen (declaredLetters source)) source, m.addAll (declaredLetters source),
        (declaredLetters source).map fun c => (c, baseAlias c)⟩ := by
  have hl : ∀ c ∈ localLetters source, isWord c = true := fun c => isWord_of_mem_localLetters
  have hr : ∀ c ∈ (functionLetters source).filter (· ∉ localLetters source),
      isWord c = true := fun c hc =>
    isWord_of_mem_declaredLetters (List.mem_append_right _ hc)
  unfold rename
  rw [foldl_step (show AliasMap.FirstChoices (Renaming.mk source m []).aliases from hm) hl]
  dsimp only
  rw [functionLetters_substitute_locals, foldl_step (hm.addAll _) hr,
    substitute_chosen_chosen hl]
  simp [declaredLetters, AliasMap.addAll]

/-! ## One pass -/

/-- The text, which starts after the character `prev`, in one pass from left to
right: a character with a border of a word on both sides and no backslash right
before it is replaced as `f` says, and every other character stays. -/
def replaceAlone (f : Char → Option Text) (prev : Option Char) : Text → Text
  | [] => []
  | c :: s =>
    (if isBorder prev (c :: s) ∧ isBorder (some c) s ∧ prev ≠ some '\\' then (f c).getD [c]
      else [c]) ++ replaceAlone f (some c) s

/-- Where only word characters are replaced, borders on both sides are what it
takes to stand alone. -/
theorem replaceAlone_eq_substituteAfter {f : Char → Option Text}
    (hf : ∀ c w, f c = some w → isWord c = true) (prev : Option Char) (s : Text) :
    replaceAlone f prev s = substituteAfter f prev s := by
  induction s generalizing prev with
  | nil => rfl
  | cons c s ih =>
      rw [replaceAlone, substituteAfter, ih]
      cases hc : f c with
      | none => simp
      | some w => simp only [standsAlone_iff_isBorder (hf c w hc)]

/-- **Renaming in one pass**: with aliases that were asked for in any order, the
renamed text is the source text in one pass, with each declared letter that has
borders of a word on both sides and no backslash before it replaced by its
alias.  The aliases asked for are those of the declared letters. -/
theorem rename_eq_replaceAlone (asked : List Char) (source : Text) :
    let m := AliasMap.empty.addAll asked
    let declared := declaredLetters source
    (rename m source).aliases = m.addAll declared ∧
      (rename m source).code =
        replaceAlone
          (fun c => if c ∈ declared then some ((m.addAll declared).aliasFor c) else none)
          none source := by
  intro m declared
  have hm : m.FirstChoices := AliasMap.firstChoices_empty.addAll asked
  have hc : (fun c => if c ∈ declared then some ((m.addAll declared).aliasFor c) else none) =
      chosen declared := by
    funext c
    rw [(hm.addAll declared).aliasFor_eq, chosen]
  have hw : ∀ c w, chosen declared c = some w → isWord c = true := fun c w h =>
    isWord_of_mem_declaredLetters (chosen_eq_some_iff.mp h).1
  rw [rename_eq hm, hc, replaceAlone_eq_substituteAfter hw]
  exact ⟨rfl, rfl⟩

/-- The letter behind a backslash and the letter of a longer word stay. -/
example : (rename .empty "local n=1 f(n,n_,\"\\n\")".toList).code =
    "local number=1 f(number,n_,\"\\n\")".toList := by
  decide +kernel

end LuaReveal.Naming
