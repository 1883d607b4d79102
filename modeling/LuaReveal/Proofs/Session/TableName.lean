import LuaReveal.Proofs.Naming.Standing
import LuaReveal.Proofs.Session.Reuse

/-!
# LuaReveal.Proofs.Session.TableName

The name under which the comments know the string table is the name that its
declaration has in the text that is indented (`exists_opening_renamedText`).

The name is worked out from the aliases, and the text is substituted.  Both come
from one substitution (`renamedTo`): it changes nothing in an opening but the name
(`Opening.substituteAfter_append`), and the aliases of a fresh session are what it puts
for the letters (`get?_aliases_freshRun`).
-/

namespace LuaReveal

open StringTable (Opening)
open Naming (AliasMap ByNames chosen declaredLetters substitute substituteAfter)
open Text (StandsIn isAsciiLetter isBlank isWord isWordAt lastAfter)

/-! ## Substitution in an opening -/

namespace StringTable.Opening

variable {f : Char → Option Text}

/-- The opening with what is substituted for its name. -/
def substitute (o : Opening) (hf : ByNames f) : Opening :=
  { o with
    name := Naming.substitute f o.name
    name_ne_nil := hf.substitute_ne_nil o.name_ne_nil
    isWord_of_mem_name _ := hf.isWord_of_mem_substitute o.isWord_of_mem_name }

theorem name_substitute (o : Opening) (hf : ByNames f) :
    (o.substitute hf).name = Naming.substitute f o.name := rfl

/-- An opening is the keyword, blanks, the name, and what is behind the name. -/
def behindName (o : Opening) : Text :=
  o.beforeSign ++ '=' :: (o.afterSign ++ ['\x7b'])

theorem text_eq (o : Opening) :
    o.text = "local".toList ++ (o.afterKeyword ++ (o.name ++ o.behindName)) := rfl

/-- Behind the name of an opening there is no word character. -/
theorem isWord_of_mem_behindName (o : Opening) {c : Char} (hc : c ∈ o.behindName) :
    isWord c = false := by
  simp only [behindName, List.mem_append, List.mem_cons, List.not_mem_nil, or_false] at hc
  rcases hc with hc | rfl | hc | rfl
  · exact Text.isWord_of_isBlank (o.isBlank_of_mem_beforeSign c hc)
  · decide
  · exact Text.isWord_of_isBlank (o.isBlank_of_mem_afterSign c hc)
  · decide

/-- No word goes on behind the name of an opening. -/
theorem isWordAt_head?_behindName (o : Opening) (after : Text) :
    isWordAt (o.behindName ++ after).head? = false := by
  cases h : o.behindName with
  | nil => simp [behindName] at h
  | cons c s => exact o.isWord_of_mem_behindName (h ▸ List.mem_cons_self)

/-- The character before the name of an opening is a blank. -/
theorem exists_lastAfter_afterKeyword (o : Opening) (prev : Option Char) :
    ∃ b, lastAfter prev o.afterKeyword = some b ∧ isBlank b = true := by
  cases h : o.afterKeyword.getLast? with
  | none => exact absurd (List.getLast?_eq_none_iff.mp h) o.afterKeyword_ne_nil
  | some b =>
      refine ⟨b, by rw [lastAfter, h, Option.some_or], ?_⟩
      exact o.isBlank_of_mem_afterKeyword b (List.mem_of_getLast? h)

/-- In an opening a substitution changes the name only. -/
theorem substituteAfter_append (o : Opening) (hf : ByNames f) (prev : Option Char)
    (after : Text) :
    ∃ prev', substituteAfter f prev (o.text ++ after) =
      (o.substitute hf).text ++ substituteAfter f prev' after := by
  have hk : ∀ c ∈ "local".toList, isWord c = true := List.all_eq_true.mp (by decide)
  have hb : ∀ c ∈ o.afterKeyword, f c = none := fun c hc =>
    hf.eq_none_of_isBlank (o.isBlank_of_mem_afterKeyword c hc)
  have hs : ∀ c ∈ o.behindName, f c = none := fun c hc =>
    hf.eq_none_of_not_isWord (o.isWord_of_mem_behindName hc)
  obtain ⟨b, hl, hbl⟩ := o.exists_lastAfter_afterKeyword (some '_')
  refine ⟨lastAfter (some '_') o.behindName, ?_⟩
  -- The keyword is no letter, and there is nothing for blanks and signs.
  calc substituteAfter f prev (o.text ++ after)
      = substituteAfter f prev
          ("local".toList ++ (o.afterKeyword ++ (o.name ++ (o.behindName ++ after)))) := by
        simp only [text_eq, List.append_assoc]
    _ = "local".toList ++ (o.afterKeyword ++
          substituteAfter f (some b) (o.name ++ (o.behindName ++ after))) := by
        rw [Naming.substituteAfter_word_append hk (by decide) (show isWord '_' = true by decide),
          Naming.substituteAfter_append_of_none hb, hl]
    _ = "local".toList ++ (o.afterKeyword ++ (Naming.substitute f o.name ++
          (o.behindName ++
            substituteAfter f (lastAfter (some '_') o.behindName) after))) := by
        rw [Naming.substituteAfter_blank_word_append hbl o.isWord_of_mem_name o.name_ne_nil
            (o.isWordAt_head?_behindName after), Naming.substituteAfter_append_of_none hs]
    _ = (o.substitute hf).text ++
          substituteAfter f (lastAfter (some '_') o.behindName) after := by
        simp only [text_eq, List.append_assoc]
        rfl

/-- A name of more than one character is what is substituted for it. -/
theorem substitute_name_of_ne (o : Opening) (h : ∀ c, o.name ≠ [c]) :
    Naming.substitute f o.name = o.name := by
  have hw := o.isWord_of_mem_name
  have hn := o.name_ne_nil
  cases he : o.name with
  | nil => exact absurd he hn
  | cons a w =>
      cases w with
      | nil => exact absurd he (h a)
      | cons b u => exact Naming.substitute_word (he ▸ hw) (by simp)

/-- A substitution leaves an opening where it stands, with what is substituted
for its name. -/
theorem standsIn_substitute (o : Opening) (hf : ByNames f) {s : Text} (hs : StandsIn o.text s) :
    StandsIn (o.substitute hf).text (Naming.substitute f s) := by
  obtain ⟨before, after, rfl, hb⟩ := hs
  obtain ⟨prev', he⟩ := o.substituteAfter_append hf (lastAfter none before) after
  refine ⟨substituteAfter f none before, substituteAfter f prev' after, ?_, ?_⟩
  · rw [Naming.substitute, hf.substituteAfter_append hb, he]
  · exact hf.keepsEnd_substituteAfter none before none none id hb

end StringTable.Opening

namespace Session

/-! ## The name of the table in a fresh session -/

section Fresh

variable (policy : Escape.Policy) (settings : Settings) (source : Text)

/-- The passes in a fresh session. -/
def freshRun : Passes :=
  (empty.analyze policy source).reveal settings source

/-- The letters that a run in a fresh session renames. -/
def renamedLetters : List Char :=
  if settings.renames then declaredLetters (freshRun policy settings source).decoded else []

/-- What a run in a fresh session puts for a letter. -/
def renamedTo : Char → Option Text :=
  chosen (renamedLetters policy settings source)

/-- Only letters of the 26 are renamed, and only by a run that renames. -/
theorem of_mem_renamedLetters {c : Char} (h : c ∈ renamedLetters policy settings source) :
    settings.renames = true ∧ isAsciiLetter c = true := by
  unfold renamedLetters at h
  split at h
  · next hr => exact ⟨hr, Naming.isAsciiLetter_of_mem_declaredLetters h⟩
  · contradiction

theorem byNames_renamedTo : ByNames (renamedTo policy settings source) :=
  Naming.byNames_chosen fun _ h =>
    Text.isWord_of_isAsciiLetter (of_mem_renamedLetters policy settings source h).2

/-- The aliases after a run in a fresh session are what it put for the letters. -/
theorem get?_aliases_freshRun (c : Char) :
    (freshRun policy settings source).session.aliases.get? c =
      renamedTo policy settings source c := by
  have he : (empty.analyze policy source).Regular := regular_empty.analyze policy source
  have ha : (freshRun policy settings source).session.aliases =
      AliasMap.empty.addAll (renamedLetters policy settings source) := by
    rw [freshRun, he.aliases_reveal settings source, renamedLetters]
    split
    · rfl
    · rfl
  have hf : AliasMap.empty.FirstChoices := AliasMap.firstChoices_empty
  have hm : c ∈ (AliasMap.empty.addAll (renamedLetters policy settings source)).letters ↔
      c ∈ renamedLetters policy settings source := by
    rw [hf.indexed.mem_letters_addAll]
    exact or_iff_left List.not_mem_nil
  rw [ha, (hf.addAll _).get?_eq, renamedTo, chosen]
  simp only [hm]

/-- The text that a run in a fresh session indents. -/
theorem renamedText_freshRun :
    (freshRun policy settings source).renamedText =
      substitute (renamedTo policy settings source) (freshRun policy settings source).decoded := by
  cases hr : settings.renames with
  | false =>
      rw [renamedTo, renamedLetters, hr, if_neg Bool.false_ne_true, Naming.substitute_chosen_nil]
      simp [freshRun, Passes.renamedText, reveal, hr]
  | true =>
      rw [renamedTo, renamedLetters, hr, if_pos rfl]
      exact (regular_empty.analyze policy source).renamedText_reveal source hr

/-- A run in a fresh session puts for the name of the table what it puts for it in
the text. -/
theorem tableName?_freshRun (o : Opening)
    (h : (StringTable.ofSource policy source).name = some o.name) :
    (freshRun policy settings source).session.tableName? =
      some (substitute (renamedTo policy settings source) o.name) := by
  have ht : (freshRun policy settings source).session.table.name = some o.name := h
  rw [tableName?, ht, Option.map_some]
  congr 1
  split
  · next c hc => rw [hc, Naming.substitute_singleton, get?_aliases_freshRun]
  · next hc => exact (o.substitute_name_of_ne hc).symm

/-- A run that renames puts something for the letter that names the table. -/
theorem mem_renamedLetters (o : Opening) {c : Char} (ho : o.name = [c])
    (hs : StandsIn o.text (freshRun policy settings source).decoded)
    (hr : settings.renames = true) (hc : isAsciiLetter c = true) :
    c ∈ renamedLetters policy settings source := by
  rw [renamedLetters, if_pos hr]
  exact List.mem_append_left _ (o.mem_localLetters ho hc hs)

/-- **The name of the table**: in a fresh session the text that is indented has the
opening of the declaration of the table, and the name in it is the one by which the
session knows the table.  If the session renames and the name was a letter, it is
now the letter's alias, and otherwise it has stayed. -/
theorem exists_opening_renamedText {name : Text}
    (h : (StringTable.ofSource policy source).name = some name) :
    let p := (empty.analyze policy source).reveal settings source
    ∃ o : Opening, p.session.tableName? = some o.name ∧ StandsIn o.text p.renamedText ∧
      (∀ c, settings.renames = true ∧ name = [c] ∧ isAsciiLetter c = true →
        p.session.aliases.get? c = some o.name) ∧
      ((¬ ∃ c, settings.renames = true ∧ name = [c] ∧ isAsciiLetter c = true) →
        o.name = name) := by
  intro p
  obtain ⟨o, rfl, hs⟩ := StringTable.exists_opening_decodeAll policy source h settings.policy
  have hf : ByNames (renamedTo policy settings source) := byNames_renamedTo policy settings source
  refine ⟨o.substitute hf, tableName?_freshRun policy settings source o h, ?_, ?_, ?_⟩
  · have ht : p.renamedText = _ := renamedText_freshRun policy settings source
    rw [ht]
    exact o.standsIn_substitute hf hs
  · intro c hc
    obtain ⟨hr, ho, hl⟩ := hc
    have hm : renamedTo policy settings source c = some (Naming.baseAlias c) :=
      if_pos (mem_renamedLetters policy settings source o ho hs hr hl)
    have hn : (o.substitute hf).name = Naming.baseAlias c := by
      rw [Opening.name_substitute, ho, Naming.substitute_singleton, hm, Option.getD_some]
    rw [hn, ← hm]
    exact get?_aliases_freshRun policy settings source c
  · intro hn
    by_cases ho : ∃ c, o.name = [c]
    · obtain ⟨c, hc⟩ := ho
      have hm : c ∉ renamedLetters policy settings source := by
        intro hc'
        obtain ⟨hr, hl⟩ := of_mem_renamedLetters policy settings source hc'
        exact hn ⟨c, hr, hc, hl⟩
      rw [Opening.name_substitute, hc, Naming.substitute_singleton, renamedTo, chosen, if_neg hm,
        Option.getD_none]
    · exact o.substitute_name_of_ne fun c hc => ho ⟨c, hc⟩

/-- The opening is part of a literal that a stray quote opens. -/
theorem exists_opening_renamedText_stray :
    let source := "s=[[\"]] local J = \x7b\"\\065\"; \"b\"\x7d f(J[1], J [2])".toList
    let p := (empty.analyze .bracket source).reveal .standard source
    (StringTable.ofSource .bracket source).name = some ['J'] ∧
      ∃ o : Opening, p.session.tableName? = some o.name ∧ StandsIn o.text p.renamedText ∧
        (∀ c, Settings.standard.renames = true ∧ ['J'] = [c] ∧ isAsciiLetter c = true →
          p.session.aliases.get? c = some o.name) ∧
        ((¬ ∃ c, Settings.standard.renames = true ∧ ['J'] = [c] ∧ isAsciiLetter c = true) →
          o.name = ['J']) :=
  ⟨by decide +kernel, exists_opening_renamedText .bracket .standard _ (by decide +kernel)⟩

end Fresh

end Session

end LuaReveal
