import LuaReveal.Proofs.Naming.OnePass
import LuaReveal.Proofs.StringTable.Opening
import LuaReveal.Session

/-!
# LuaReveal.Proofs.Session.Reuse

A session that has been used before gives what a fresh one gives.  The table and
the count of references are made anew for each source text, but the aliases stay
from run to run.  They do not show (`reveal_analyze_afterCalls`):

* An alias is the first choice of its letter, whatever letters came before it,
  so the renamed text depends on the source text alone.
* The name of the table is looked up among the aliases.  If it is a letter, the
  run itself has declared it, since the opening of the declaration of the table
  is still in the text that is renamed.  If it is no letter, no run ever gave it
  an alias.
-/

namespace LuaReveal

open StringTable (Opening)
open Naming (AliasMap baseAlias declaredLetters localLetters declaredLetter? chosen)
open Text (StandsIn dropBlanks isAsciiLetter isBlank isWordAt)

/-! ## The letter of an opening -/

/-- An opening with a letter for its name declares that letter. -/
theorem StringTable.Opening.declaredLetter?_append (o : Opening) {c : Char} (ho : o.name = [c])
    (hc : isAsciiLetter c = true) {prev : Option Char} (hp : isWordAt prev = false)
    (after : Text) : declaredLetter? "local".toList '=' prev (o.text ++ after) = some c := by
  have hb : isBlank c = false := Text.isBlank_of_isWord (Text.isWord_of_isAsciiLetter hc)
  rw [Naming.declaredLetter?_of_not hp, Opening.text, List.append_assoc, Text.after?_append,
    Option.bind_some, ho]
  cases hk : o.afterKeyword with
  | nil => exact absurd hk o.afterKeyword_ne_nil
  | cons b w =>
      have hbw : ∀ d ∈ b :: w, isBlank d = true := hk ▸ o.isBlank_of_mem_afterKeyword
      have hw : ∀ d ∈ w, isBlank d = true := fun d hd => hbw d (List.mem_cons_of_mem b hd)
      have hs : (dropBlanks (o.beforeSign ++ '=' :: (o.afterSign ++ '\x7b' :: after))).head? =
          some '=' := by
        rw [Text.dropBlanks_append o.isBlank_of_mem_beforeSign,
          Text.dropBlanks_cons_of_not (by decide)]
        rfl
      simp only [List.cons_append, List.append_assoc, List.nil_append]
      rw [Naming.letterBefore?_cons_of_isBlank (hbw b List.mem_cons_self),
        Text.dropBlanks_append hw, Text.dropBlanks_cons_of_not hb]
      exact if_pos ⟨hc, hs⟩

/-- A text in which an opening with a letter for its name stands declares that
letter as a local. -/
theorem StringTable.Opening.mem_localLetters (o : Opening) {c : Char} (ho : o.name = [c])
    (hc : isAsciiLetter c = true) {s : Text} (hs : StandsIn o.text s) : c ∈ localLetters s := by
  obtain ⟨before, after, he, hp⟩ := hs
  refine List.mem_eraseDups.mpr (Text.mem_occurrences_iff.mpr ⟨before, o.text ++ after, he, ?_, ?_⟩)
  · simp [Opening.text]
  · exact o.declaredLetter?_append ho hc hp after

namespace Session

/-! ## Calls -/

/-- What may be asked of a session. -/
inductive Call where
  | analyze (policy : Escape.Policy) (source : Text)
  | reveal (settings : Settings) (source : Text)

/-- The session after a call. -/
def call (s : Session) : Call → Session
  | .analyze policy source => s.analyze policy source
  | .reveal settings source => (s.reveal settings source).session

/-- The session after calls in a row. -/
def afterCalls (s : Session) (calls : List Call) : Session :=
  calls.foldl call s

/-! ## The aliases of a session -/

/-- The aliases of a session are first choices, and only letters of the 26 have
one. -/
structure Regular (s : Session) : Prop where
  firstChoices : s.aliases.FirstChoices
  isAsciiLetter_of_mem : ∀ c ∈ s.aliases.letters, isAsciiLetter c = true

section Regular

variable {s : Session} (settings : Settings) (policy : Escape.Policy) (source : Text)

theorem regular_empty : empty.Regular where
  firstChoices := AliasMap.firstChoices_empty
  isAsciiLetter_of_mem _ h := absurd h List.not_mem_nil

theorem Regular.analyze (hs : s.Regular) : (s.analyze policy source).Regular :=
  ⟨hs.firstChoices, hs.isAsciiLetter_of_mem⟩

/-- The aliases after the passes. -/
theorem Regular.aliases_reveal (hs : s.Regular) :
    (s.reveal settings source).session.aliases =
      if settings.renames then
        s.aliases.addAll (declaredLetters (s.reveal settings source).decoded)
      else s.aliases := by
  cases hr : settings.renames with
  | false => simp [reveal, hr]
  | true => simp [reveal, hr, Naming.rename_eq hs.firstChoices]

theorem Regular.reveal (hs : s.Regular) : (s.reveal settings source).session.Regular := by
  have ha := hs.aliases_reveal settings source
  by_cases hr : settings.renames = true
  · rw [if_pos hr] at ha
    refine ⟨by rw [ha]; exact hs.firstChoices.addAll _, fun c hc => ?_⟩
    rw [ha, hs.firstChoices.indexed.mem_letters_addAll] at hc
    rcases hc with hc | hc
    · exact Naming.isAsciiLetter_of_mem_declaredLetters hc
    · exact hs.isAsciiLetter_of_mem c hc
  · rw [if_neg hr] at ha
    exact ⟨ha ▸ hs.firstChoices, ha ▸ hs.isAsciiLetter_of_mem⟩

/-- A call keeps a session regular. -/
theorem Regular.call (hs : s.Regular) (c : Call) : (s.call c).Regular := by
  cases c with
  | analyze policy source => exact hs.analyze policy source
  | reveal settings source => exact hs.reveal settings source

/-- A session is regular after any calls. -/
theorem Regular.afterCalls (hs : s.Regular) (calls : List Call) :
    (s.afterCalls calls).Regular := by
  induction calls generalizing s with
  | nil => exact hs
  | cons c calls ih => exact ih (hs.call c)

end Regular

/-! ## What a run gives -/

section Run

variable {s : Session} {settings : Settings} (policy : Escape.Policy) (source : Text)

/-- If the letters of a run have their aliases, a letter of the 26 that is among
them has its alias, and no other character has one. -/
theorem Regular.get?_addAll (hs : s.Regular) {letters : List Char} {c : Char}
    (hl : ∀ d ∈ letters, isAsciiLetter d = true) (hc : isAsciiLetter c = true → c ∈ letters) :
    (s.aliases.addAll letters).get? c =
      if isAsciiLetter c = true then some (baseAlias c) else none := by
  have hm : c ∈ (s.aliases.addAll letters).letters ↔ isAsciiLetter c = true := by
    rw [hs.firstChoices.indexed.mem_letters_addAll]
    constructor
    · rintro (h | h)
      · exact hl c h
      · exact hs.isAsciiLetter_of_mem c h
    · exact fun h => .inl (hc h)
  rw [(hs.firstChoices.addAll letters).get?_eq]
  simp only [hm]

/-- After a run that renames, a table that is named by a letter has the letter's
alias for its name, and every other name has stayed. -/
theorem Regular.tableName?_reveal_analyze (hs : s.Regular) (hr : settings.renames = true) :
    ((s.analyze policy source).reveal settings source).session.tableName? =
      (StringTable.ofSource policy source).name.map fun name =>
        match name with
        | [c] => if isAsciiLetter c = true then baseAlias c else name
        | _ => name := by
  have ha := (hs.analyze policy source).aliases_reveal settings source
  rw [if_pos hr] at ha
  rw [tableName?, ha]
  show (StringTable.ofSource policy source).name.map _ = _
  cases hn : (StringTable.ofSource policy source).name with
  | none => rfl
  | some name =>
      match name with
      | [] | _ :: _ :: _ => rfl
      | [c] =>
          have hc : isAsciiLetter c = true → c ∈ declaredLetters
              ((s.analyze policy source).reveal settings source).decoded := by
            intro hc
            obtain ⟨o, ho, hd⟩ :=
              StringTable.exists_opening_decodeAll policy source hn settings.policy
            exact List.mem_append_left _ (o.mem_localLetters ho hc hd)
          have hg := (hs.analyze policy source).get?_addAll
            (fun d => Naming.isAsciiLetter_of_mem_declaredLetters) hc
          simp only [Option.map_some, hg]
          by_cases hl : isAsciiLetter c = true
          · rw [if_pos hl, if_pos hl, Option.getD_some]
          · rw [if_neg hl, if_neg hl, Option.getD_none]

/-- The text of a run before it is indented depends on the decoded text only. -/
theorem Regular.renamedText_reveal (hs : s.Regular) (hr : settings.renames = true) :
    (s.reveal settings source).renamedText =
      Naming.substitute (chosen (declaredLetters (s.reveal settings source).decoded))
        (s.reveal settings source).decoded := by
  simp only [Passes.renamedText, Session.reveal, hr, if_true, Option.map_some, Option.getD_some,
    Naming.rename_eq hs.firstChoices]

theorem indented_reveal (s : Session) (settings : Settings) (source : Text) :
    (s.reveal settings source).indented =
      Layout.reindent settings.indentUnit (s.reveal settings source).renamedText := rfl

theorem code_reveal (s : Session) (settings : Settings) (source : Text) :
    (s.reveal settings source).code =
      if settings.comments then
        Commentary.annotate (s.reveal settings source).session.tableName?
          (s.reveal settings source).indented
      else (s.reveal settings source).indented := rfl

/-- **Reuse of a session**: after any calls, a run that renames gives the code,
the table, the count of references and the name of the table that it gives in a
fresh session. -/
theorem reveal_analyze_afterCalls (calls : List Call) (hr : settings.renames = true) :
    let used := ((empty.afterCalls calls).analyze policy source).reveal settings source
    let fresh := (empty.analyze policy source).reveal settings source
    used.code = fresh.code ∧ used.session.table = fresh.session.table ∧
      used.session.inlined = fresh.session.inlined ∧
      used.session.tableName? = fresh.session.tableName? := by
  intro used fresh
  have hu : (empty.afterCalls calls).Regular := regular_empty.afterCalls calls
  have ht : used.session.tableName? = fresh.session.tableName? := by
    rw [hu.tableName?_reveal_analyze policy source hr,
      regular_empty.tableName?_reveal_analyze policy source hr]
  have hi : used.indented = fresh.indented := by
    rw [indented_reveal, indented_reveal, (hu.analyze policy source).renamedText_reveal source hr,
      (regular_empty.analyze policy source).renamedText_reveal source hr]
    rfl
  refine ⟨?_, rfl, rfl, ht⟩
  rw [code_reveal, code_reveal, ht, hi]

/-- A session that has named `J` before. -/
theorem reveal_analyze_afterCalls_standard :
    let calls := [.analyze .preserve "local J=\x7b\"a\"\x7d".toList,
      .reveal .standard "local J=\x7b\"a\"\x7d local x=J[1]".toList]
    let source := "local J=\x7b\"b\"\x7d local n=J[1]".toList
    let used := ((empty.afterCalls calls).analyze .bracket source).reveal .standard source
    let fresh := (empty.analyze .bracket source).reveal .standard source
    Settings.standard.renames = true ∧ used.code = fresh.code ∧
      used.session.table = fresh.session.table ∧
      used.session.inlined = fresh.session.inlined ∧
      used.session.tableName? = fresh.session.tableName? :=
  ⟨rfl, reveal_analyze_afterCalls .bracket _ _ rfl⟩

end Run

end Session

end LuaReveal
