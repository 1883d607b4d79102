import LuaReveal.Proofs.StringTable.Opening
import LuaReveal.Proofs.Text.Identifier

/-!
# LuaReveal.Proofs.StringTable.Written

Declarations of string tables as they may be written, with any blanks and separators
between their parts (`WrittenTable`), and how they are read back: every such text is
the table of its name and its bodies, whatever stands after it (`ofSource_written`).

A body may imitate all that stands around it.  It cannot imitate its own closing
quote, and between two literals there are no quotes, so that the members are cut at
the same quotes when they are read one by one and when the literals among them are
searched for (`values_scan_members`).
-/

namespace LuaReveal

open Literal (Body)
open Text (Found Piece Recognizer IsIdentifier isBlank isWord isWordAt dropBlanks lastAfter)

namespace Text

/-- A word does not start in a text that does not hold it and ends outside of words. -/
theorem after?_append_eq_none {w u v : Text} (hw : ∀ c ∈ w, isWord c = true)
    (hi : ¬ w <:+: u ++ v) (hl : isWordAt (u ++ v).getLast? = false) (hv : v ≠ []) (t : Text) :
    after? w (v ++ t) = none := by
  cases ha : after? w (v ++ t) with
  | none => rfl
  | some rest =>
      have he : v ++ t = w ++ rest := after?_eq_some_iff.mp ha
      cases List.append_eq_append_iff.mp he with
      | inl h =>
          -- The word goes on behind the text, whose last character is then one of it.
          obtain ⟨x, hx, _⟩ := h
          have hm : v.getLast hv ∈ w := hx ▸ List.mem_append_left x (List.getLast_mem hv)
          rw [List.getLast?_append, List.getLast?_eq_some_getLast hv, Option.some_or,
            isWordAt_some, hw _ hm] at hl
          contradiction
      | inr h =>
          obtain ⟨x, hx, _⟩ := h
          exact absurd ⟨u, x, by rw [hx, List.append_assoc]⟩ hi

end Text

namespace StringTable

/-! ## Members -/

/-- A member of a table as it is written: a literal, and behind it at most one
separator with blanks around it. -/
structure Member where
  body : Text
  beforeSeparator : Text
  separator : Option Char
  afterSeparator : Text
  isBody : Body .lines body
  isBlank_of_mem_beforeSeparator : ∀ c ∈ beforeSeparator, isBlank c = true
  eq_of_mem_separator : ∀ c ∈ separator, c = ',' ∨ c = ';'
  isBlank_of_mem_afterSeparator : ∀ c ∈ afterSeparator, isBlank c = true

namespace Member

variable (m : Member)

/-- What is written behind the literal. -/
def trailer : Text :=
  m.beforeSeparator ++ (m.separator.toList ++ m.afterSeparator)

/-- A member as it is written. -/
def text : Text :=
  Literal.quote m.body ++ m.trailer

theorem quote_notMem_trailer : '"' ∉ m.trailer := by
  have hb : isBlank '"' = false := by decide
  simp only [trailer, List.mem_append, Option.mem_toList, not_or]
  refine ⟨fun h => ?_, fun h => ?_, fun h => ?_⟩
  · exact absurd (m.isBlank_of_mem_beforeSeparator _ h) (by simp [hb])
  · exact absurd (m.eq_of_mem_separator _ h) (by decide)
  · exact absurd (m.isBlank_of_mem_afterSeparator _ h) (by simp [hb])

/-- What follows a literal is passed over, up to the next literal or the closing
brace. -/
theorem dropSeparator_trailer_append {c : Char} (hc : c = '"' ∨ c = '\x7d') (s : Text) :
    dropSeparator (m.trailer ++ c :: s) = c :: s := by
  have hb : isBlank c = false := by
    cases hc with
    | inl h => rw [h]; decide
    | inr h => rw [h]; decide
  have ha := Text.dropBlanks_append_cons (s := s) m.isBlank_of_mem_afterSeparator hb
  have ht : dropBlanks (m.trailer ++ c :: s) =
      dropBlanks (m.separator.toList ++ (m.afterSeparator ++ c :: s)) := by
    rw [trailer, List.append_assoc, List.append_assoc,
      Text.dropBlanks_append m.isBlank_of_mem_beforeSeparator]
  unfold dropSeparator
  rw [ht]
  cases hs : m.separator with
  | none =>
      rw [Option.toList_none, List.nil_append, ha]
      cases hc with
      | inl h => subst h; rfl
      | inr h => subst h; rfl
  | some d =>
      rw [Option.toList_some, List.singleton_append]
      cases m.eq_of_mem_separator d hs with
      | inl h =>
          rw [h, Text.dropBlanks_cons_of_not (by decide)]
          exact ha
      | inr h =>
          rw [h, Text.dropBlanks_cons_of_not (by decide)]
          exact ha

end Member

/-- The body of the first member is read, and then those of the others. -/
theorem readBodies?_text_append (m : Member) (s : Text) :
    readBodies? (m.text ++ s) =
      match dropSeparator (m.trailer ++ s) with
      | '\x7d' :: _ => some [m.body]
      | _ => (readBodies? (dropSeparator (m.trailer ++ s))).map (m.body :: ·) := by
  have ht : m.text ++ s = '"' :: (m.body ++ '"' :: (m.trailer ++ s)) := by
    simp [Member.text, Literal.quote]
  have hr := m.isBody.readBody?_append (m.trailer ++ s)
  rw [ht, readBodies?]
  split
  · next h => simp [hr] at h
  · next body rest h =>
      obtain ⟨rfl, rfl⟩ := Prod.mk.inj (Option.some.inj (hr.symm.trans h))
      rfl

/-- The bodies of members are read up to the closing brace. -/
theorem readBodies?_members {ms : List Member} (hm : ms ≠ []) (s : Text) :
    readBodies? (ms.flatMap Member.text ++ '\x7d' :: s) = some (ms.map Member.body) := by
  induction ms with
  | nil => contradiction
  | cons m ms ih =>
      rw [List.flatMap_cons, List.append_assoc, readBodies?_text_append]
      cases ms with
      | nil =>
          rw [List.flatMap_nil, List.nil_append, m.dropSeparator_trailer_append (.inr rfl)]
          rfl
      | cons m' ms =>
          have hq : (m' :: ms).flatMap Member.text ++ '\x7d' :: s =
              '"' :: (m'.body ++ '"' :: (m'.trailer ++ (ms.flatMap Member.text ++ '\x7d' :: s))) := by
            simp [Member.text, Literal.quote]
          have hd := m.dropSeparator_trailer_append (.inl rfl)
            (m'.body ++ '"' :: (m'.trailer ++ (ms.flatMap Member.text ++ '\x7d' :: s)))
          rw [hq] at ih ⊢
          rw [hd, ih (by simp)]
          rfl

/-! ## The literals among members -/

/-- Recognises a literal that may reach over the ends of lines. -/
def longLiteral : Recognizer Text where
  find _ s :=
    match s with
    | '"' :: s =>
      (Literal.readBody? .lines s).map fun (body, rest) => ⟨body, Literal.quote body, rest⟩
    | _ => none
  taken_append_rest {_ s f} h := by
    split at h
    · obtain ⟨⟨body, rest⟩, hb, rfl⟩ := Option.map_eq_some_iff.mp h
      simp [Literal.quote, Literal.eq_of_readBody? hb]
    · contradiction
  taken_ne_nil {_ s f} h := by
    split at h
    · obtain ⟨⟨body, rest⟩, _, rfl⟩ := Option.map_eq_some_iff.mp h
      simp [Literal.quote]
    · contradiction

theorem find_longLiteral_of_ne {c : Char} (hc : c ≠ '"') (prev : Option Char) (s : Text) :
    longLiteral.find prev (c :: s) = none := by
  simp [longLiteral, hc]

/-- A search for literals in the text of members finds their bodies. -/
theorem values_scan_members (ms : List Member) (prev : Option Char) :
    (longLiteral.scanAfter prev (ms.flatMap Member.text)).filterMap Piece.value? =
      ms.map Member.body := by
  induction ms generalizing prev with
  | nil => simp [Recognizer.scanAfter]
  | cons m ms ih =>
      let rest := m.trailer ++ ms.flatMap Member.text
      have hs : (m :: ms).flatMap Member.text = '"' :: (m.body ++ '"' :: rest) := by
        simp [rest, Member.text, Literal.quote]
      have hf : longLiteral.find prev ('"' :: (m.body ++ '"' :: rest)) =
          some ⟨m.body, Literal.quote m.body, rest⟩ := by
        simp [longLiteral, m.isBody.readBody?_append rest]
      have ht : ∀ u v, m.trailer = u ++ v → v ≠ [] → ∀ p,
          longLiteral.find p (v ++ ms.flatMap Member.text) = none := by
        intro u v he hv p
        cases v with
        | nil => contradiction
        | cons c v =>
            have hc : c ≠ '"' := fun h => m.quote_notMem_trailer (by simp [he, h])
            exact find_longLiteral_of_ne hc p _
      have hp : (m.trailer.map (Piece.plain (α := Text))).filterMap Piece.value? = [] := by
        simp [List.filterMap_map, Piece.value?, Function.comp_def]
      rw [hs, longLiteral.scanAfter_cons_of_some hf,
        longLiteral.scanAfter_append_plain fun u v he hv => ht u v he hv _]
      simp [Piece.value?, ih]

/-! ## Tables -/

/-- A sign is read with the blanks around it. -/
theorem afterSign?_append {b b' s : Text} {c d : Char} (hb : ∀ e ∈ b, isBlank e = true)
    (hc : isBlank c = false) (hb' : ∀ e ∈ b', isBlank e = true) (hd : isBlank d = false) :
    afterSign? c (b ++ c :: (b' ++ d :: s)) = some (d :: s) := by
  simp [afterSign?, Text.dropBlanks_append_cons hb hc, Text.dropBlanks_append_cons hb' hd]

/-- The declaration of a string table as it is written: the opening, whose name is an
identifier, one or more members, and the closing brace. -/
structure WrittenTable where
  opening : Opening
  afterBrace : Text
  members : List Member
  isIdentifier_name : IsIdentifier opening.name
  isBlank_of_mem_afterBrace : ∀ c ∈ afterBrace, isBlank c = true
  members_ne_nil : members ≠ []

namespace WrittenTable

variable (w : WrittenTable)

def text : Text :=
  w.opening.text ++ (w.afterBrace ++ (w.members.flatMap Member.text ++ ['}']))

/-- What a declaration is read as. -/
def declaration : Declaration :=
  ⟨w.opening.name, w.members.map Member.body⟩

/-- The text behind the opening starts with the first literal, once blanks are
passed. -/
theorem exists_cons_members (after : Text) :
    ∃ s, w.members.flatMap Member.text ++ '\x7d' :: after = '"' :: s := by
  obtain ⟨m, ms, hm⟩ := List.exists_cons_of_ne_nil w.members_ne_nil
  exact ⟨_, by rw [hm]; rfl⟩

/-- A written declaration is read at its place, whatever follows it. -/
theorem find?_text_append {prev : Option Char} (hp : isWordAt prev = false) (after : Text) :
    Declaration.find? prev (w.text ++ after) = some w.declaration := by
  let o := w.opening
  obtain ⟨c, u, hn⟩ := List.exists_cons_of_ne_nil o.name_ne_nil
  obtain ⟨q, hq⟩ := w.exists_cons_members after
  have hc : isBlank c = false := Text.isBlank_of_isWord (o.isWord_of_mem_name c (by simp [hn]))
  let s₃ := '\x7b' :: (w.afterBrace ++ '"' :: q)
  let s₂ := o.beforeSign ++ '=' :: (o.afterSign ++ s₃)
  have ht : w.text ++ after = "local".toList ++ (o.afterKeyword ++ (o.name ++ s₂)) := by
    simp [text, Opening.text, o, s₂, s₃, ← hq]
  have h₁ : Text.afterKeyword? "local".toList prev
      ("local".toList ++ (o.afterKeyword ++ (o.name ++ s₂))) =
        some (o.afterKeyword ++ (o.name ++ s₂)) := by
    simp only [Text.afterKeyword?, hp, Text.after?_append]
    rfl
  have h₂ : Text.afterBlanks? (o.afterKeyword ++ (o.name ++ s₂)) = some (o.name ++ s₂) := by
    rw [hn, List.cons_append]
    exact Text.afterBlanks?_append o.afterKeyword_ne_nil o.isBlank_of_mem_afterKeyword hc
  have h₃ : Text.readIdentifier? (o.name ++ s₂) = some (o.name, s₂) :=
    Text.readIdentifier?_eq_some_iff.mpr ⟨w.isIdentifier_name,
      Text.isWordAt_head?_blanks o.isBlank_of_mem_beforeSign (by decide), rfl⟩
  have h₄ : afterSign? '=' s₂ = some s₃ :=
    afterSign?_append o.isBlank_of_mem_beforeSign (by decide) o.isBlank_of_mem_afterSign
      (by decide)
  have h₅ : afterSign? '\x7b' s₃ = some ('"' :: q) :=
    afterSign?_append (b := []) (by simp) (by decide) w.isBlank_of_mem_afterBrace (by decide)
  have h₆ : readBodies? ('"' :: q) = some (w.members.map Member.body) := by
    rw [← hq]
    exact readBodies?_members w.members_ne_nil after
  rw [ht, Declaration.find?]
  simp only [h₁, h₂, h₃, h₄, h₅, h₆, Option.bind_eq_bind, Option.bind_some]
  rfl

/-- The first declaration of a text is the one that is written behind a text without
the keyword. -/
theorem first?_append {before : Text} (hk : ¬ "local".toList <:+: before)
    (hb : isWordAt before.getLast? = false) (after : Text) :
    Declaration.first? (before ++ (w.text ++ after)) = some w.declaration := by
  have hw : ∀ c ∈ "local".toList, isWord c = true := List.all_eq_true.mp (by decide)
  have hn : ∀ u v, before = u ++ v → v ≠ [] →
      Declaration.find? (lastAfter none u) (v ++ (w.text ++ after)) = none := by
    intro u v he hv
    have ha := Text.after?_append_eq_none hw (he ▸ hk) (he ▸ hb) hv (w.text ++ after)
    rw [Declaration.find?, Text.afterKeyword?, ha, ite_self]
    rfl
  have hl : isWordAt (lastAfter none before) = false := by
    simpa [lastAfter] using hb
  obtain ⟨c, s, hs⟩ : ∃ c s, w.text ++ after = c :: s := ⟨'l', _, rfl⟩
  rw [Declaration.first?, Text.occurrences, Text.occurrencesAfter_append hn, hs,
    Text.occurrencesAfter, ← hs, w.find?_text_append hl]
  rfl

end WrittenTable

/-- **Written tables are read back**: a text that declares a string table, behind
anything without the keyword, is read as the table of its name and its bodies, in
order and numbered from one, whatever stands after it.  A search for literals between
the braces finds the same bodies. -/
theorem ofSource_written (policy : Escape.Policy) (w : WrittenTable) {before : Text}
    (hk : ¬ "local".toList <:+: before) (hb : isWordAt before.getLast? = false) (after : Text) :
    let t := ofSource policy (before ++ (w.text ++ after))
    t.name = some w.opening.name ∧
      t.size = w.members.length ∧
      (∀ i m, w.members[i]? = some m →
        t.entries[i]? = some
          ({ index := i + 1
             key := w.opening.name ++ '[' :: Text.ofNat (i + 1) ++ [']']
             raw := m.body
             value := Escape.resolve (Escape.decode policy .bare m.body)
             literal := Literal.requote policy m.body } : Entry)) ∧
      (longLiteral.scan (w.members.flatMap Member.text)).filterMap Piece.value? =
        w.members.map Member.body := by
  have ht : ofSource policy (before ++ (w.text ++ after)) =
      ofBodies policy w.opening.name (w.members.map Member.body) := by
    rw [ofSource, w.first?_append hk hb after]
    rfl
  rw [ht]
  refine ⟨rfl, by simp, ?_, values_scan_members w.members none⟩
  intro i m hm
  simp [ofBodies, hm, Entry.ofBody]

/-- A table of two members: a body that imitates the end of the table, and one over two
lines with an escape. -/
def imitation : WrittenTable where
  opening :=
    { name := "T1".toList
      afterKeyword := [' ']
      beforeSign := []
      afterSign := ['\t', ' ']
      name_ne_nil := by decide
      isWord_of_mem_name := List.all_eq_true.mp (by decide)
      afterKeyword_ne_nil := by decide
      isBlank_of_mem_afterKeyword := List.all_eq_true.mp (by decide)
      isBlank_of_mem_beforeSign := List.all_eq_true.mp (by decide)
      isBlank_of_mem_afterSign := List.all_eq_true.mp (by decide) }
  afterBrace := ['\n']
  members :=
    [{ body := "a\\\"\x7d local B=\x7b".toList
       beforeSeparator := [' ']
       separator := some ';'
       afterSeparator := ['\n']
       isBody := by decide +kernel
       isBlank_of_mem_beforeSeparator := List.all_eq_true.mp (by decide)
       eq_of_mem_separator := by simp
       isBlank_of_mem_afterSeparator := List.all_eq_true.mp (by decide) },
     { body := "\n\\101".toList
       beforeSeparator := []
       separator := none
       afterSeparator := []
       isBody := by decide +kernel
       isBlank_of_mem_beforeSeparator := List.all_eq_true.mp (by decide)
       eq_of_mem_separator := by simp
       isBlank_of_mem_afterSeparator := List.all_eq_true.mp (by decide) }]
  isIdentifier_name := .cons (by decide) (List.all_eq_true.mp (by decide))
  isBlank_of_mem_afterBrace := List.all_eq_true.mp (by decide)
  members_ne_nil := by simp

/-- The imitation behind a text that ends as the keyword starts, and before another
table. -/
theorem ofSource_written_imitation :
    let before := "x = \"loca\"\n".toList
    let t := ofSource .preserve (before ++ (imitation.text ++ ", \"c\"\x7d".toList))
    ¬ "local".toList <:+: before ∧ isWordAt before.getLast? = false ∧
      t.name = some "T1".toList ∧ t.size = 2 ∧
        t.entries[1]? = some
          ({ index := 2
             key := "T1[2]".toList
             raw := "\n\\101".toList
             value := "\nA".toList
             literal := "\"\nA\"".toList } : Entry) :=
  have hk : ¬ "local".toList <:+: "x = \"loca\"\n".toList := by decide +kernel
  have h := ofSource_written .preserve imitation hk (by decide) ", \"c\"\x7d".toList
  ⟨hk, by decide, h.1, h.2.1, (h.2.2.1 1 _ rfl).trans (by decide +kernel)⟩

end StringTable

end LuaReveal
