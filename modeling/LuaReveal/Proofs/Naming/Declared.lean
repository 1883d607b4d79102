import LuaReveal.Proofs.Naming.Substitution
import LuaReveal.Proofs.Text.Class
import LuaReveal.Proofs.Text.Occurrence
import LuaReveal.Proofs.Text.Words

/-!
# LuaReveal.Proofs.Naming.Declared

The letters that a text declares after a substitution by names are those that it
declared before, less the replaced ones, in the same order
(`occurrences_substitute`).  No name that is put in makes a keyword or a
declared letter, and a letter that stays is declared as it was.

The proof follows the recogniser `declaredLetter?`: the keyword, the blanks and
the sign are each read from a substituted text as from the text itself.
-/

namespace LuaReveal.Naming

open Text (isWord isWordAt isAsciiLetter isBlank after? afterKeyword? afterBlanks? dropBlanks
  occurrencesAfter occurrences)

/-! ## The parts of a declaration -/

/-- The letter at a place that `sign` follows, with blanks before it. -/
def letterAt? (sign : Char) : Text → Option Char
  | [] => none
  | c :: s => if isAsciiLetter c ∧ (dropBlanks s).head? = some sign then some c else none

/-- The letter after blanks that `sign` follows, with blanks before it. -/
def letterBefore? (sign : Char) (s : Text) : Option Char :=
  (afterBlanks? s).bind (letterAt? sign)

theorem declaredLetter?_eq (keyword : Text) (sign : Char) (prev : Option Char) (s : Text) :
    declaredLetter? keyword sign prev s =
      (afterKeyword? keyword prev s).bind (letterBefore? sign) := rfl

theorem letterBefore?_cons_of_not {c : Char} (h : isBlank c = false) (sign : Char) (s : Text) :
    letterBefore? sign (c :: s) = none := by
  simp [letterBefore?, afterBlanks?, h]

theorem letterBefore?_cons_of_isBlank {b : Char} (h : isBlank b = true) (sign : Char) (s : Text) :
    letterBefore? sign (b :: s) = letterAt? sign (dropBlanks s) := by
  simp [letterBefore?, afterBlanks?, h]

/-- A letter of a longer word is not read. -/
theorem letterAt?_of_isWord {a d sign : Char} (hd : isWord d = true) (hs : isWord sign = false)
    (s : Text) : letterAt? sign (a :: d :: s) = none := by
  have hne : d ≠ sign := by
    rintro rfl
    rw [hs] at hd
    contradiction
  have hh : (dropBlanks (d :: s)).head? ≠ some sign := by
    rw [Text.dropBlanks_cons_of_not (Text.isBlank_of_isWord hd)]
    exact fun h => hne (Option.some.inj h)
  exact if_neg fun h => hh h.2

/-- No letter is declared where a word runs into the place. -/
theorem declaredLetter?_of_isWordAt {prev : Option Char} (h : isWordAt prev = true)
    (keyword : Text) (sign : Char) (s : Text) : declaredLetter? keyword sign prev s = none := by
  simp [declaredLetter?_eq, afterKeyword?, h]

/-- Where no word runs into the place, a declaration starts with its keyword. -/
theorem declaredLetter?_of_not {prev : Option Char} (h : isWordAt prev = false)
    (keyword : Text) (sign : Char) (s : Text) :
    declaredLetter? keyword sign prev s = (after? keyword s).bind (letterBefore? sign) := by
  simp [declaredLetter?_eq, afterKeyword?, h]

/-! ## Parts read from a substituted text -/

section Parts

variable {f : Char → Option Text} {prev : Option Char} {s : Text}

/-- Within a word, a word is read from a substituted text as from the text. -/
theorem after?_substituteAfter (hp : isWordAt prev = true) {u : Text}
    (hu : ∀ d ∈ u, isWord d = true) (s : Text) :
    after? u (substituteAfter f prev s) = (after? u s).map (substituteAfter f prev) := by
  induction u generalizing s with
  | nil => rfl
  | cons a u ih =>
      cases s with
      | nil => rfl
      | cons c s =>
          rw [substituteAfter_cons_of_not (standsAlone_of_isWordAt_prev hp s)]
          by_cases hc : a = c
          · have hw : isWordAt (some c) = true := hc ▸ hu a List.mem_cons_self
            simp only [after?, if_pos hc]
            rw [substituteAfter_congr_of_isWordAt hw hp]
            exact ih (fun d hd => hu d (List.mem_cons_of_mem a hd)) s
          · simp [after?, hc]

theorem ne_backslash_of_isBlank {b : Char} (h : isBlank b = true) : some b ≠ some '\\' := by
  rintro ⟨⟩
  revert h
  decide

/-- A blank is no word character and no backslash. -/
theorem substituteAfter_congr_of_isBlank {b b' : Char} (h : isBlank b = true)
    (h' : isBlank b' = true) (s : Text) :
    substituteAfter f (some b) s = substituteAfter f (some b') s := by
  refine substituteAfter_congr ?_
    (iff_of_false (ne_backslash_of_isBlank h) (ne_backslash_of_isBlank h')) s
  rw [Text.isWordAt_some, Text.isWordAt_some, Text.isWord_of_isBlank h, Text.isWord_of_isBlank h']

theorem ByNames.eq_none_of_isBlank (hf : ByNames f) {b : Char} (h : isBlank b = true) :
    f b = none :=
  hf.eq_none_of_not_isWord (Text.isWord_of_isBlank h)

/-- The head of a name is a word character. -/
theorem ByNames.exists_cons (hf : ByNames f) {c : Char} {w : Text} (h : f c = some w) :
    ∃ a b u, w = a :: b :: u ∧ isWord a = true ∧ isWord b = true ∧ ∀ d ∈ u, isWord d = true := by
  have hl := hf.two_le_length h
  match w with
  | [] | [_] => simp at hl
  | a :: b :: u =>
      refine ⟨a, b, u, rfl, ?_, ?_, fun d hd => ?_⟩ <;> apply hf.isWord_of_mem h <;> simp [*]

/-- After a blank, the blanks of a substituted text are those of the text. -/
theorem ByNames.dropBlanks_substituteAfter (hf : ByNames f) {b : Char} (hb : isBlank b = true)
    (s : Text) :
    dropBlanks (substituteAfter f (some b) s) = substituteAfter f (some b) (dropBlanks s) := by
  induction s generalizing b with
  | nil => rfl
  | cons c s ih =>
      by_cases hc : isBlank c = true
      · rw [substituteAfter_cons_of_none (hf.eq_none_of_isBlank hc),
          Text.dropBlanks_cons_of_isBlank hc, Text.dropBlanks_cons_of_isBlank hc, ih hc]
        exact substituteAfter_congr_of_isBlank hc hb _
      · have hn : isBlank c = false := by simpa using hc
        rw [Text.dropBlanks_cons_of_not hn]
        rcases substituteAfter_cons_cases f (some b) c s with ⟨w, _, hw, he⟩ | ⟨_, he⟩
        · obtain ⟨a, d, u, rfl, ha, _⟩ := hf.exists_cons hw
          rw [he]
          exact Text.dropBlanks_cons_of_not (Text.isBlank_of_isWord ha) _
        · rw [he]
          exact Text.dropBlanks_cons_of_not hn _

/-- A substituted text starts with a character that is no word character
exactly if the text does. -/
theorem ByNames.head?_substituteAfter_eq_some_iff (hf : ByNames f) {sign : Char}
    (hs : isWord sign = false) (prev : Option Char) (s : Text) :
    (substituteAfter f prev s).head? = some sign ↔ s.head? = some sign := by
  cases s with
  | nil => rfl
  | cons c s =>
      rcases substituteAfter_cons_cases f prev c s with ⟨w, _, hw, he⟩ | ⟨_, he⟩
      · obtain ⟨a, d, u, rfl, ha, _⟩ := hf.exists_cons hw
        have hc := hf.isWord_of_eq_some hw
        have hne {x : Char} (hx : isWord x = true) : some x ≠ some sign := by
          rintro ⟨⟩
          rw [hs] at hx
          contradiction
        rw [he]
        exact iff_of_false (hne ha) (hne hc)
      · rw [he]
        rfl

/-- The sign behind a word and blanks is read from a substituted text as from the
text. -/
theorem ByNames.head?_dropBlanks_substituteAfter (hf : ByNames f) {sign : Char}
    (hs : isWord sign = false) (hp : isWordAt prev = true) (s : Text) :
    (dropBlanks (substituteAfter f prev s)).head? = some sign ↔
      (dropBlanks s).head? = some sign := by
  cases s with
  | nil => rfl
  | cons c s =>
      rw [substituteAfter_cons_of_not (standsAlone_of_isWordAt_prev hp s)]
      by_cases hc : isBlank c = true
      · rw [Text.dropBlanks_cons_of_isBlank hc, Text.dropBlanks_cons_of_isBlank hc,
          hf.dropBlanks_substituteAfter hc]
        exact hf.head?_substituteAfter_eq_some_iff hs _ _
      · have hn : isBlank c = false := by simpa using hc
        rw [Text.dropBlanks_cons_of_not hn, Text.dropBlanks_cons_of_not hn]
        rfl

/-- A character between a blank and a text that goes on with no word stands alone. -/
theorem standsAlone_of_isBlank {b : Char} (hb : isBlank b = true)
    (hs : isWordAt s.head? = false) : standsAlone (some b) s = true := by
  simp [standsAlone, Text.isWord_of_isBlank hb, hs, ne_backslash_of_isBlank hb]

/-- No word goes on where a sign follows, with blanks before it. -/
theorem isWordAt_head?_of_sign {sign : Char} (hs : isWord sign = false)
    (h : (dropBlanks s).head? = some sign) : isWordAt s.head? = false := by
  cases s with
  | nil => rfl
  | cons c s =>
      cases hc : isWord c with
      | false => exact hc
      | true =>
          rw [Text.dropBlanks_cons_of_not (Text.isBlank_of_isWord hc)] at h
          obtain rfl := Option.some.inj h
          rw [hc] at hs
          contradiction

/-- The letter behind a blank is read from a substituted text as from the text,
unless it is replaced. -/
theorem ByNames.letterAt?_substituteAfter (hf : ByNames f) {b sign : Char}
    (hb : isBlank b = true) (hs : isWord sign = false) (s : Text) :
    letterAt? sign (substituteAfter f (some b) s) =
      (letterAt? sign s).filter fun c => (f c).isNone := by
  cases s with
  | nil => rfl
  | cons c s =>
      rcases substituteAfter_cons_cases f (some b) c s with ⟨w, _, hw, he⟩ | ⟨hk, he⟩
      · obtain ⟨a, d, u, rfl, _, hd, _⟩ := hf.exists_cons hw
        have hn : letterAt? sign ((a :: d :: u) ++ substituteAfter f (some c) s) = none :=
          letterAt?_of_isWord hd hs _
        rw [he, hn, letterAt?]
        split
        · rw [Option.filter_some, hw]
          rfl
        · rfl
      · rw [he, letterAt?, letterAt?]
        by_cases hl : isAsciiLetter c = true
        · have hc : isWordAt (some c) = true := Text.isWord_of_isAsciiLetter hl
          have hi := hf.head?_dropBlanks_substituteAfter hs hc s
          by_cases hh : (dropBlanks s).head? = some sign
          · have hn : f c = none :=
              hk.resolve_left (by simp [standsAlone_of_isBlank hb (isWordAt_head?_of_sign hs hh)])
            simp only [hl, hi, hh, and_self, if_true]
            rw [Option.filter_some, hn]
            rfl
          · simp only [hi, hh, and_false, if_false]
            rfl
        · simp [hl]

/-- The letter behind a keyword is read from a substituted text as from the text,
unless it is replaced. -/
theorem ByNames.letterBefore?_substituteAfter (hf : ByNames f) {sign : Char}
    (hs : isWord sign = false) (hp : isWordAt prev = true) (s : Text) :
    letterBefore? sign (substituteAfter f prev s) =
      (letterBefore? sign s).filter fun c => (f c).isNone := by
  cases s with
  | nil => rfl
  | cons b s =>
      rw [substituteAfter_cons_of_not (standsAlone_of_isWordAt_prev hp s)]
      cases hb : isBlank b with
      | false =>
          rw [letterBefore?_cons_of_not hb, letterBefore?_cons_of_not hb]
          rfl
      | true =>
          rw [letterBefore?_cons_of_isBlank hb, letterBefore?_cons_of_isBlank hb,
            hf.dropBlanks_substituteAfter hb, hf.letterAt?_substituteAfter hb hs]

end Parts

/-! ## Declarations in a substituted text -/

section Declarations

variable {f : Char → Option Text} {prev : Option Char} {keyword : Text} {sign : Char}

/-- Of the character before a text it matters for declarations only whether it
is a word character. -/
theorem occurrencesAfter_declaredLetter?_congr {prev' : Option Char}
    (h : isWordAt prev = isWordAt prev') (s : Text) :
    occurrencesAfter (declaredLetter? keyword sign) prev s =
      occurrencesAfter (declaredLetter? keyword sign) prev' s := by
  cases s with
  | nil => rfl
  | cons c s =>
      have hd : declaredLetter? keyword sign prev (c :: s) =
          declaredLetter? keyword sign prev' (c :: s) := by
        rw [declaredLetter?_eq, declaredLetter?_eq, afterKeyword?, afterKeyword?, h]
      rw [occurrencesAfter, occurrencesAfter, hd]

/-- No declaration starts within a word. -/
theorem occurrencesAfter_append_of_isWordAt (hp : isWordAt prev = true) {u : Text}
    (hu : ∀ d ∈ u, isWord d = true) (s : Text) :
    occurrencesAfter (declaredLetter? keyword sign) prev (u ++ s) =
      occurrencesAfter (declaredLetter? keyword sign) prev s := by
  induction u generalizing prev with
  | nil => rfl
  | cons d u ih =>
      have hd : isWordAt (some d) = true := hu d List.mem_cons_self
      rw [List.cons_append, occurrencesAfter, declaredLetter?_of_isWordAt hp,
        ih hd fun e he => hu e (List.mem_cons_of_mem d he),
        occurrencesAfter_declaredLetter?_congr (hd.trans hp.symm)]
      rfl

/-- A text that starts with a word other than the keyword declares nothing there. -/
theorem declaredLetter?_word_append {w s : Text} (hk : ∀ d ∈ keyword, isWord d = true)
    (hw : ∀ d ∈ w, isWord d = true) (hs : isWordAt s.head? = false) (hne : w ≠ keyword) :
    declaredLetter? keyword sign prev (w ++ s) = none := by
  cases hp : isWordAt prev with
  | true => exact declaredLetter?_of_isWordAt hp keyword sign _
  | false =>
      rw [declaredLetter?_of_not hp]
      cases ha : after? keyword (w ++ s) with
      | none => rfl
      | some r =>
          rw [Text.after?_eq_some_iff] at ha
          cases r with
          | nil => rfl
          | cons c r =>
              rw [Option.bind_some]
              cases hc : isBlank c with
              | false => exact letterBefore?_cons_of_not hc sign r
              | true =>
                  have hr : isWordAt (c :: r).head? = false := Text.isWord_of_isBlank hc
                  have hword : w = keyword := by
                    rw [← Text.takeWhile_word_append hw hs, ha, Text.takeWhile_word_append hk hr]
                  exact absurd hword hne

/-- Over a word other than the keyword, a search for declarations goes on behind
it as behind any word character. -/
theorem occurrencesAfter_word_append {w s : Text} {c : Char} (hk : ∀ d ∈ keyword, isWord d = true)
    (hw : ∀ d ∈ w, isWord d = true) (hs : isWordAt s.head? = false) (hne : w ≠ keyword)
    (hn : w ≠ []) (hc : isWord c = true) :
    occurrencesAfter (declaredLetter? keyword sign) prev (w ++ s) =
      occurrencesAfter (declaredLetter? keyword sign) (some c) s := by
  have hd : declaredLetter? keyword sign prev (w ++ s) = none :=
    declaredLetter?_word_append hk hw hs hne
  cases w with
  | nil => exact absurd rfl hn
  | cons a u =>
      have ha : isWordAt (some a) = true := hw a List.mem_cons_self
      have hu : ∀ d ∈ u, isWord d = true := fun d hd => hw d (List.mem_cons_of_mem a hd)
      rw [List.cons_append] at hd ⊢
      rw [occurrencesAfter, hd, occurrencesAfter_append_of_isWordAt ha hu,
        occurrencesAfter_declaredLetter?_congr (ha.trans (show _ = isWordAt (some c) from hc.symm))]
      rfl

/-- Before a character that stays, a letter is declared after a substitution if it
was declared before and is not replaced. -/
theorem ByNames.declaredLetter?_cons (hf : ByNames f) (hk : ∀ d ∈ keyword, isWord d = true)
    (hn : keyword ≠ []) (hs : isWord sign = false) (c : Char) (s : Text) :
    declaredLetter? keyword sign prev (c :: substituteAfter f (some c) s) =
      (declaredLetter? keyword sign prev (c :: s)).filter fun c => (f c).isNone := by
  cases hp : isWordAt prev with
  | true =>
      rw [declaredLetter?_of_isWordAt hp, declaredLetter?_of_isWordAt hp]
      rfl
  | false =>
      rw [declaredLetter?_of_not hp, declaredLetter?_of_not hp]
      cases keyword with
      | nil => exact absurd rfl hn
      | cons k u =>
          by_cases hc : k = c
          · have hw : isWordAt (some c) = true := hc ▸ hk k List.mem_cons_self
            have hu : ∀ d ∈ u, isWord d = true := fun d hd => hk d (List.mem_cons_of_mem k hd)
            simp only [after?, if_pos hc]
            rw [after?_substituteAfter hw hu]
            cases after? u s with
            | none => rfl
            | some r => exact hf.letterBefore?_substituteAfter hs hw r
          · simp [after?, hc]

/-- **Declarations after a substitution**: a text that is substituted by names
declares the letters that it declared before and that are not replaced, in
their order. -/
theorem ByNames.occurrencesAfter_substituteAfter (hf : ByNames f)
    (hk : ∀ d ∈ keyword, isWord d = true) (hl : 2 ≤ keyword.length)
    (hr : Keyword.isReserved keyword = true) (hs : isWord sign = false) (s : Text) :
    occurrencesAfter (declaredLetter? keyword sign) prev (substituteAfter f prev s) =
      (occurrencesAfter (declaredLetter? keyword sign) prev s).filter fun c => (f c).isNone := by
  induction s generalizing prev with
  | nil => rfl
  | cons c s ih =>
      rcases substituteAfter_cons_cases f prev c s with ⟨w, ha, hw, he⟩ | ⟨_, he⟩
      · -- Neither the character nor the name that stands for it starts a declaration.
        have hc : isWord c = true := hf.isWord_of_eq_some hw
        have hsn : isWordAt s.head? = false := by simpa using (Bool.and_eq_true_iff.mp ha).2
        have hsn' : isWordAt (substituteAfter f (some c) s).head? = false := by
          rw [hf.isWordAt_head?_substituteAfter, hsn]
        have hwk : w ≠ keyword := by
          rintro rfl
          rw [hf.not_isReserved hw] at hr
          contradiction
        have hwn : w ≠ [] := by
          rintro rfl
          exact absurd (hf.two_le_length hw) (by simp)
        have hck : [c] ≠ keyword := by
          rintro rfl
          simp at hl
        have hcw : ∀ d ∈ [c], isWord d = true := fun d hd => List.mem_singleton.mp hd ▸ hc
        rw [he, occurrencesAfter_word_append hk (fun d => hf.isWord_of_mem hw) hsn' hwk hwn hc, ih,
          ← occurrencesAfter_word_append hk hcw hsn hck (by simp) hc]
        rfl
      · have hn : keyword ≠ [] := by
          rintro rfl
          simp at hl
        rw [he, occurrencesAfter, occurrencesAfter, hf.declaredLetter?_cons hk hn hs, ih,
          Option.toList_filter, List.filter_append]

end Declarations

/-! ## Declared letters -/

section Letters

/-- Leaving characters out and taking each once can change places. -/
theorem eraseDups_filter (p : Char → Bool) (l : List Char) :
    (l.filter p).eraseDups = l.eraseDups.filter p := by
  match l with
  | [] => rfl
  | a :: l =>
      have hlt : (l.filter fun b => !b == a).length < l.length + 1 :=
        Nat.lt_succ_of_le (List.length_filter_le _ l)
      have ih := eraseDups_filter p (l.filter fun b => !b == a)
      rw [List.eraseDups_cons]
      cases hp : p a with
      | true =>
          rw [List.filter_cons_of_pos hp, List.filter_cons_of_pos hp, List.eraseDups_cons,
            List.filter_filter, ← ih, List.filter_filter]
          simp only [Bool.and_comm]
      | false =>
          have hpf : l.filter p = (l.filter fun b => !b == a).filter p := by
            rw [List.filter_filter]
            refine List.filter_congr fun b _ => ?_
            by_cases hb : b = a
            · rw [hb, hp, Bool.false_and]
            · simp [hb]
          rw [List.filter_cons_of_neg (by simp [hp]), List.filter_cons_of_neg (by simp [hp]), hpf,
            ih]
termination_by l.length

/-- The letter that a declaration declares is one of the 26. -/
theorem isAsciiLetter_of_declaredLetter? {keyword : Text} {sign c : Char} {prev : Option Char}
    {s : Text} (h : declaredLetter? keyword sign prev s = some c) : isAsciiLetter c = true := by
  rw [declaredLetter?_eq] at h
  obtain ⟨r, _, hr⟩ := Option.bind_eq_some_iff.mp h
  obtain ⟨t, _, ht⟩ := Option.bind_eq_some_iff.mp hr
  cases t with
  | nil => contradiction
  | cons d t =>
      rw [letterAt?] at ht
      split at ht
      · next hl =>
        rw [← Option.some.inj ht]
        exact hl.1
      · contradiction

/-- A letter that a text declares by a keyword and a sign is one of the 26. -/
theorem isAsciiLetter_of_mem_occurrences {keyword : Text} {sign c : Char} {source : Text}
    (h : c ∈ occurrences (declaredLetter? keyword sign) source) : isAsciiLetter c = true := by
  obtain ⟨_, _, _, _, hd⟩ := Text.mem_occurrences_iff.mp h
  exact isAsciiLetter_of_declaredLetter? hd

theorem isAsciiLetter_of_mem_localLetters {source : Text} {c : Char}
    (h : c ∈ localLetters source) : isAsciiLetter c = true :=
  isAsciiLetter_of_mem_occurrences (List.mem_eraseDups.mp h)

theorem isAsciiLetter_of_mem_functionLetters {source : Text} {c : Char}
    (h : c ∈ functionLetters source) : isAsciiLetter c = true :=
  isAsciiLetter_of_mem_occurrences (List.mem_eraseDups.mp h)

/-- A text that is substituted by names declares the functions that it declared
before and that are not replaced, in their order. -/
theorem ByNames.functionLetters_substitute {f : Char → Option Text} (hf : ByNames f) (s : Text) :
    functionLetters (substitute f s) = (functionLetters s).filter fun c => (f c).isNone := by
  have h : occurrences (declaredLetter? "function".toList '(') (substitute f s) =
      (occurrences (declaredLetter? "function".toList '(') s).filter fun c => (f c).isNone :=
    hf.occurrencesAfter_substituteAfter (List.all_eq_true.mp (by decide)) (by decide) (by decide)
      (by decide) s
  rw [functionLetters, functionLetters, ← eraseDups_filter]
  rw [h]

end Letters

end LuaReveal.Naming
