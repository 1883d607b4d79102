import LuaReveal.Proofs.Session.Reuse
import LuaReveal.Proofs.Signature.Names
import LuaReveal.Proofs.StringTable.Inlining
import LuaReveal.Proofs.Text.Decimal
import LuaReveal.Proofs.Text.Lines
import LuaReveal.Report

/-!
# LuaReveal.Proofs.Report.Lines

The lines of a report.  There are 24 of them beside the items (`length_lines`), and one
for each item, if the texts in it hold no line feeds.  The keys, the aliases and the
names of functions hold none (`onLines_ofSource`).  The value of an entry may: its
escapes are resolved before it is shown, and a line feed among its first characters
goes on the next line (`length_lines_text_ofSource`).
-/

namespace LuaReveal

open Text (isBlank isWord withoutReturn)

/-! ## Texts without line feeds -/

section Newline

variable {s : Text}

theorem Text.newline_notMem_of_isBlank (h : ∀ c ∈ s, isBlank c = false) : '\n' ∉ s :=
  fun hn => absurd (h _ hn) (by decide)

theorem Text.newline_notMem_of_isWord (h : ∀ c ∈ s, isWord c = true) : '\n' ∉ s :=
  Text.newline_notMem_of_isBlank fun c hc => Text.isBlank_of_isWord (h c hc)

theorem Text.newline_notMem_ofNat (n : Nat) : '\n' ∉ Text.ofNat n := fun hn =>
  absurd ((Text.spells_ofNat n).isAsciiDigit_of_mem _ hn) (by decide)

end Newline

namespace Report

/-! ## Sections -/

section Sections

variable (title : Text) (ls : List Text)

theorem length_titled : (titled title ls).length = 2 + ls.length := by
  rw [titled, List.length_cons, List.length_cons]
  omega

/-- A section without items has a line that says so. -/
theorem length_orNone : (orNone ls).length = max 1 ls.length := by
  cases ls with
  | nil => rfl
  | cons l ls =>
      rw [orNone, List.isEmpty_cons, if_neg Bool.false_ne_true, List.length_cons]
      omega

theorem count_newline_titled :
    (titled title ls).flatten.count '\n' = title.count '\n' + ls.flatten.count '\n' := by
  simp [titled]

theorem count_newline_orNone : (orNone ls).flatten.count '\n' = ls.flatten.count '\n' := by
  cases ls with
  | nil => rfl
  | cons l ls => rfl

end Sections

/-- The parts of a report: its head, the counts, three sections of items, and how the
result is run. -/
theorem length_lines (r : Report) :
    r.lines.length = 24 + max 1 r.outcome.table.size + max 1 r.outcome.aliases.size
      + max 1 r.outcome.functions.length := by
  simp only [lines, List.length_append, length_titled, length_orNone, List.length_mapIdx,
    List.length_map, statisticsLines, List.length_cons, List.length_nil, StringTable.size,
    Naming.AliasMap.size]
  omega

/-! ## Line feeds in the items -/

section Items

theorem count_newline_spaces (n : Nat) : (Text.spaces n).count '\n' = 0 := by
  simp [Text.spaces, List.count_replicate]

theorem count_newline_alignLeft (width : Nat) (s : Text) :
    (Text.alignLeft width s).count '\n' = s.count '\n' := by
  simp [Text.alignLeft, count_newline_spaces]

theorem count_newline_alignRight (width : Nat) (s : Text) :
    (Text.alignRight width s).count '\n' = s.count '\n' := by
  simp [Text.alignRight, count_newline_spaces]

theorem count_newline_center (width : Nat) (s : Text) :
    (Text.center width s).count '\n' = s.count '\n' := by
  simp [Text.center, count_newline_spaces]

theorem count_newline_ofNat (n : Nat) : (Text.ofNat n).count '\n' = 0 :=
  List.count_eq_zero.mpr (Text.newline_notMem_ofNat n)

/-- Of a value that is cut only the first characters can be line feeds. -/
theorem count_newline_cut (value : Text) :
    (cut value).count '\n' = (value.take valueLimit).count '\n' := by
  unfold cut
  split
  · simp
  · next h => rw [List.take_of_length_le (by omega)]

theorem count_newline_entryLine {e : Entry} (h : '\n' ∉ e.key) (number : Nat) :
    (entryLine number e).count '\n' = (e.value.take valueLimit).count '\n' := by
  simp [entryLine, count_newline_alignRight, count_newline_alignLeft, count_newline_ofNat,
    count_newline_cut, List.count_eq_zero.mpr h]

theorem count_newline_functionLine (f : Signature) :
    (functionLine f).count '\n' = f.name.count '\n' := by
  have hr (role : Role) : role.name.count '\n' = 0 := by cases role <;> decide
  unfold functionLine
  simp [count_newline_alignRight, count_newline_ofNat, hr]

theorem newline_notMem_statisticsLines (s : Statistics) : '\n' ∉ (statisticsLines s).flatten := by
  simp [statisticsLines, ← List.count_eq_zero, count_newline_alignLeft, count_newline_ofNat]

/-- Lines without line feeds have none together. -/
theorem count_newline_flatten_map {α : Type} {items : List α} {line : α → Text}
    (h : ∀ item ∈ items, '\n' ∉ line item) : (items.map line).flatten.count '\n' = 0 := by
  refine List.count_eq_zero.mpr fun hm => ?_
  obtain ⟨l, hl, hn⟩ := List.mem_flatten.mp hm
  obtain ⟨item, hi, rfl⟩ := List.mem_map.mp hl
  exact h item hi hn

end Items

/-- The items of an outcome go on a line each, but for the values that are shown: no
key, no alias and no name of a function holds a line feed. -/
structure OnLines (o : Outcome) : Prop where
  newline_notMem_key : ∀ e ∈ o.table.entries, '\n' ∉ e.key
  newline_notMem_aliasLine : ∀ p ∈ o.aliases.pairs, '\n' ∉ aliasLine p
  newline_notMem_name : ∀ f ∈ o.functions, '\n' ∉ f.name

namespace OnLines

variable {o : Outcome}

/-- The lines on the entries hold the line feeds of the values that are shown. -/
theorem count_entryLines (h : OnLines o) :
    (o.table.entries.mapIdx fun i e => entryLine (i + 1) e).flatten.count '\n' =
      (o.table.entries.map fun e => (e.value.take valueLimit).count '\n').sum := by
  rw [List.count_flatten]
  congr 1
  refine List.ext_getElem (by simp) fun i hi _ => ?_
  simp only [List.getElem_map, List.getElem_mapIdx]
  exact count_newline_entryLine (h.newline_notMem_key _ (List.getElem_mem _)) _

theorem count_aliasLines (h : OnLines o) :
    (o.aliases.pairs.map aliasLine).flatten.count '\n' = 0 :=
  count_newline_flatten_map h.newline_notMem_aliasLine

theorem count_functionLines (h : OnLines o) :
    (o.functions.map functionLine).flatten.count '\n' = 0 := by
  refine count_newline_flatten_map fun f hf => ?_
  rw [← List.count_eq_zero, count_newline_functionLine, List.count_eq_zero]
  exact h.newline_notMem_name f hf

/-- All the line feeds within the lines of a report. -/
theorem count_lines {r : Report} (h : OnLines r.outcome) :
    r.lines.flatten.count '\n' =
      r.input.count '\n' + 2 * r.output.count '\n' + r.time.count '\n' +
        (r.outcome.table.entries.map fun e => (e.value.take valueLimit).count '\n').sum := by
  have hs : (statisticsLines r.outcome.statistics).flatten.count '\n' = 0 :=
    List.count_eq_zero.mpr (newline_notMem_statisticsLines _)
  have hr : rule.count '\n' = 0 := by decide
  unfold Report.lines
  simp only [List.flatten_append, List.count_append, count_newline_titled, count_newline_orNone,
    hs, h.count_entryLines, h.count_aliasLines, h.count_functionLines]
  -- what is left are the head, the titles and the last line, which are written out
  simp only [String.reduceToList, List.cons_append, List.nil_append, List.flatten_cons,
    List.flatten_nil, List.append_nil, List.count_append, hr, count_newline_center, ne_eq,
    Char.reduceEq, not_false_eq_true, List.count_cons_of_ne, List.count_nil]
  omega

end OnLines

/-! ## Reports on source texts -/

section Source

variable (settings : Settings) (source : Text)

/-- The items of the outcome of any source text go on a line each, but for the values. -/
theorem onLines_ofSource : OnLines (.ofSource settings source) where
  newline_notMem_key e he := by
    obtain ⟨name, k, hn, _, hk⟩ := StringTable.exists_position_of_mem he
    have hw : '\n' ∉ name :=
      Text.newline_notMem_of_isWord (StringTable.isIdentifier_of_name hn).isWord_of_mem
    rw [hk]
    simpa [Text.newline_notMem_ofNat] using hw
  newline_notMem_aliasLine p hp := by
    have hr : (Passes.ofSource settings source).session.Regular :=
      (Session.regular_empty.analyze settings.policy source).reveal settings source
    have hl : isWord p.1 = true :=
      Text.isWord_of_isAsciiLetter (hr.isAsciiLetter_of_mem _ (List.mem_map_of_mem hp))
    have hw : '\n' ∉ p.1 :: p.2 := by
      refine Text.newline_notMem_of_isWord fun c hc => ?_
      cases List.mem_cons.mp hc with
      | inl he => exact he ▸ hl
      | inr hm =>
          rw [hr.firstChoices.eq_baseAlias p hp] at hm
          exact Naming.isWord_of_mem_baseAlias hl hm
    simpa [aliasLine] using hw
  newline_notMem_name f hf := by
    obtain ⟨_, _, hm⟩ := List.mem_flatMap.mp hf
    obtain ⟨_, hn, rfl⟩ := List.mem_map.mp hm
    exact Text.newline_notMem_of_isBlank (Signature.isBlank_of_mem_names hn)

end Source

section Rendered

variable {settings : Settings} {source input output time : Text}

/-- **The lines of a report**: it has 24 lines, one for each entry, each alias and each
function, one for each of these sections that is empty, and one more for each line feed
among the characters of values that are shown.  So its lines are its items one by one
exactly if no value that is shown holds a line feed. -/
theorem length_lines_text_ofSource (hi : '\n' ∉ input) (ho : '\n' ∉ output) (ht : '\n' ∉ time) :
    let r : Report := ⟨input, output, time, .ofSource settings source⟩
    (Text.lines r.text).length =
        24 + max 1 r.outcome.table.size + max 1 r.outcome.aliases.size
          + max 1 r.outcome.functions.length
          + (r.outcome.table.entries.map fun e => (e.value.take valueLimit).count '\n').sum ∧
      (Text.lines r.text = r.lines.map withoutReturn ↔
        ∀ e ∈ r.outcome.table.entries, '\n' ∉ e.value.take valueLimit) := by
  intro r
  have hc : r.lines.flatten.count '\n' =
      (r.outcome.table.entries.map fun e => (e.value.take valueLimit).count '\n').sum := by
    rw [(onLines_ofSource settings source).count_lines (r := r), List.count_eq_zero.mpr hi,
      List.count_eq_zero.mpr ho, List.count_eq_zero.mpr ht]
    omega
  refine ⟨?_, ?_⟩
  · rw [text, Text.length_lines_flatMap_newline, length_lines, hc]
  · rw [text, Text.lines_flatMap_newline_iff, ← List.count_eq_zero, hc,
      List.sum_eq_zero_iff_forall_eq_nat, List.forall_mem_map]
    simp only [List.count_eq_zero]

/-- The choices of a run that adds no comments. -/
def uncommented : Settings :=
  { Settings.standard with comments := false }

/-- A line feed in a value that is shown, and one behind the characters that are. -/
theorem length_lines_text_ofSource_cut :
    let source := "local J=\x7b\"a\\nb\",\"".toList ++ List.replicate valueLimit 'x' ++
      "\\n\"\x7d".toList
    let r : Report := ⟨"a.lua".toList, "b.lua".toList, "noon".toList, .ofSource uncommented source⟩
    '\n' ∉ r.input ∧ '\n' ∉ r.output ∧ '\n' ∉ r.time ∧
      (Text.lines r.text).length = 24 + 2 + 1 + 1 + 1 ∧
      Text.lines r.text ≠ r.lines.map withoutReturn := by
  intro source r
  have hi : '\n' ∉ r.input := by decide
  have ho : '\n' ∉ r.output := by decide
  have ht : '\n' ∉ r.time := by decide
  obtain ⟨hl, hs⟩ := @length_lines_text_ofSource uncommented source _ _ _ hi ho ht
  refine ⟨hi, ho, ht, hl.trans ?_, fun h => ?_⟩
  · decide +kernel
  · exact absurd (hs.mp h) (by decide +kernel)

/-- The value of one entry may be shown as two: of `a'\n   2. J[2]         -> 'b` the second
line is that on a second entry. -/
theorem imitated_entryLine :
    let source := "local J=\x7b\"a'\\n   2. J[2]         -> 'b\"\x7d".toList
    let r : Report := ⟨"a.lua".toList, "b.lua".toList, "noon".toList, .ofSource uncommented source⟩
    '\n' ∉ r.input ∧ '\n' ∉ r.output ∧ '\n' ∉ r.time ∧ r.outcome.table.size = 1 ∧
      entryLine 2 (.ofBody .preserve ['J'] 2 ['b']) ∈ Text.lines r.text ∧
      (Text.lines r.text).length ≠
        24 + max 1 r.outcome.table.size + max 1 r.outcome.aliases.size
          + max 1 r.outcome.functions.length := by
  decide +kernel

end Rendered

end Report

end LuaReveal
