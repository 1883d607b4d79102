import LuaReveal.Layout.Reindent
import LuaReveal.Proofs.Text.Class
import LuaReveal.Proofs.Text.Lines
import Mathlib.Data.List.DropRight

/-!
# LuaReveal.Proofs.Layout.CodeLines

The lines of code of a text, line by line (`codeLines_append_newline`), and texts that
lay out given lines with any white space around them and any lines of blanks between
them (`LaidOut`).  The lines of code of a text are exactly what it lays out
(`codeLines_eq_iff`).
-/

namespace LuaReveal

namespace Text

/-! ## Blanks at the ends -/

section Trim

variable {b s : Text} {c : Char}

theorem dropBlanks_of_forall (hb : ∀ c ∈ b, isBlank c = true) : dropBlanks b = [] := by
  have h := dropBlanks_append hb []
  rwa [List.append_nil] at h

theorem dropEndBlanks_append (hb : ∀ c ∈ b, isBlank c = true) (s : Text) :
    dropEndBlanks (s ++ b) = dropEndBlanks s := by
  have hr : ∀ c ∈ b.reverse, isBlank c = true := fun c hc => hb c (List.mem_reverse.mp hc)
  rw [dropEndBlanks, List.reverse_append, dropBlanks_append hr, dropEndBlanks]

/-- Blanks behind a text are trimmed. -/
theorem trim_append (hb : ∀ c ∈ b, isBlank c = true) (s : Text) : trim (s ++ b) = trim s := by
  by_cases hs : dropBlanks s = []
  · have hd : dropBlanks (s ++ b) = [] := by
      rw [dropBlanks, List.dropWhile_append, show s.dropWhile isBlank = [] from hs]
      exact dropBlanks_of_forall hb
    rw [trim, trim, hs, hd]
  · have hd : dropBlanks (s ++ b) = dropBlanks s ++ b := by
      rw [dropBlanks, List.dropWhile_append, if_neg (by simpa [dropBlanks] using hs)]
      rfl
    rw [trim, hd, dropEndBlanks_append hb, trim]

/-- A blank in front of a text is trimmed. -/
theorem trim_cons_of_isBlank (hc : isBlank c = true) (s : Text) : trim (c :: s) = trim s := by
  rw [trim, dropBlanks_cons_of_isBlank hc, trim]

/-- A text is its trimmed text with the blanks at its ends. -/
theorem exists_trim (s : Text) :
    ∃ b b', (∀ c ∈ b, isBlank c = true) ∧ (∀ c ∈ b', isBlank c = true) ∧
      s = b ++ (trim s ++ b') := by
  have he : dropEndBlanks (dropBlanks s) ++ (takeBlanks (dropBlanks s).reverse).reverse =
      dropBlanks s := by
    rw [dropEndBlanks, ← List.reverse_append, takeBlanks_append_dropBlanks, List.reverse_reverse]
  refine ⟨takeBlanks s, (takeBlanks (dropBlanks s).reverse).reverse,
    fun _ => isBlank_of_mem_takeBlanks, fun c hc => ?_, ?_⟩
  · exact isBlank_of_mem_takeBlanks (List.mem_reverse.mp hc)
  · rw [trim, he, takeBlanks_append_dropBlanks]

/-- Nothing is left of a text of blanks, and of no other. -/
theorem trim_eq_nil_iff : trim s = [] ↔ ∀ c ∈ s, isBlank c = true := by
  constructor
  · intro h
    obtain ⟨b, b', hb, hb', hs⟩ := exists_trim s
    rw [h, List.nil_append] at hs
    intro c hc
    rw [hs, List.mem_append] at hc
    exact hc.elim (hb c) (hb' c)
  · intro h
    rw [trim, dropBlanks_of_forall h]
    rfl

/-- A character of a trimmed text is one of the text. -/
theorem mem_of_mem_trim (h : c ∈ trim s) : c ∈ s := by
  obtain ⟨b, b', _, _, hs⟩ := exists_trim s
  rw [hs]
  exact List.mem_append_right b (List.mem_append_left b' h)

/-- A trimmed text does not end with a blank. -/
theorem isBlank_of_getLast?_trim (h : (trim s).getLast? = some c) : isBlank c = false := by
  rw [trim, dropEndBlanks, List.getLast?_reverse] at h
  obtain ⟨r, hr⟩ := List.head?_eq_some_iff.mp h
  exact isBlank_of_dropBlanks_eq_cons hr

/-- A text that starts with no blank still does without the blanks at its end. -/
theorem dropEndBlanks_cons_of_not (hc : isBlank c = false) (s : Text) :
    dropEndBlanks (c :: s) = c :: dropEndBlanks s := by
  have hr : dropBlanks (s.reverse ++ [c]) = dropBlanks s.reverse ++ [c] := by
    rw [dropBlanks, List.dropWhile_append, dropBlanks]
    split
    · next he => simp [List.isEmpty_iff.mp he, hc]
    · rfl
  rw [dropEndBlanks, List.reverse_cons, hr, List.reverse_append, dropEndBlanks]
  rfl

/-- A trimmed text is trimmed to itself. -/
theorem trim_trim (s : Text) : trim (trim s) = trim s := by
  have he : dropEndBlanks (trim s) = trim s := by
    simp [trim, dropEndBlanks, dropBlanks, List.dropWhile_idempotent]
  have hd : dropBlanks (trim s) = trim s := by
    cases hs : dropBlanks s with
    | nil => rw [trim, hs]; rfl
    | cons c r =>
        have hc : isBlank c = false := isBlank_of_dropBlanks_eq_cons hs
        rw [trim, hs, dropEndBlanks_cons_of_not hc, dropBlanks_cons_of_not hc]
  rw [trim, hd, he]

end Trim

end Text

namespace Layout

open Text (IsLine isBlank lines trim)

/-! ## Lines of code, line by line -/

/-- The line of code that a line holds, if it holds one. -/
def codeLine (l : Text) : List Text :=
  [trim l].filter fun line => !line.isEmpty

theorem codeLine_eq_singleton {l line : Text} (h : trim l = line) (hl : line ≠ []) :
    codeLine l = [line] := by
  simp [codeLine, h, hl]

theorem codeLine_eq_nil {l : Text} (h : trim l = []) : codeLine l = [] := by
  simp [codeLine, h]

/-- A text without a line feed holds at most one line of code. -/
theorem codeLines_of_newline_notMem {l : Text} (h : '\n' ∉ l) : codeLines l = codeLine l := by
  cases l with
  | nil => rfl
  | cons c l => rw [codeLines, Text.lines_of_newline_notMem h (by simp)]; rfl

/-- The lines of code of a text are those of its first line and of the others. -/
theorem codeLines_append_newline {l : Text} (h : '\n' ∉ l) (s : Text) :
    codeLines (l ++ '\n' :: s) = codeLine l ++ codeLines s := by
  have ht : trim (Text.withoutReturn l) = trim l := by
    rcases Text.withoutReturn_eq_or l with hl | hl
    · rw [hl]
    · rw [← congrArg trim hl, Text.trim_append (List.all_eq_true.mp (by decide))]
  rw [codeLines, Text.lines_append_newline_of_notMem h, List.map_cons, ← List.singleton_append,
    List.filter_append, ht]
  rfl

/-- A blank in front of a text makes no difference to its lines of code. -/
theorem codeLines_cons_of_isBlank {c : Char} (hc : isBlank c = true) (s : Text) :
    codeLines (c :: s) = codeLines s := by
  by_cases hn : c = '\n'
  · subst hn
    exact codeLines_append_newline (l := []) (by simp) s
  · have ht (l : Text) : codeLine (c :: l) = codeLine l := by
      rw [codeLine, Text.trim_cons_of_isBlank hc, codeLine]
    by_cases hs : '\n' ∈ s
    · obtain ⟨l, r, rfl, hl⟩ := List.eq_append_cons_of_mem hs
      have hl' : '\n' ∉ c :: l := List.not_mem_cons_of_ne_of_not_mem (Ne.symm hn) hl
      rw [← List.cons_append, codeLines_append_newline hl', ht, codeLines_append_newline hl]
    · have hs' : '\n' ∉ c :: s := List.not_mem_cons_of_ne_of_not_mem (Ne.symm hn) hs
      rw [codeLines_of_newline_notMem hs', ht, codeLines_of_newline_notMem hs]

/-! ## Texts that can be a line of code -/

/-- The text can be a line of code: it is not empty, it neither starts nor ends with a
blank, and it holds no line feed. -/
structure IsCode (line : Text) : Prop where
  ne_nil : line ≠ []
  trim_eq : trim line = line
  newline_notMem : '\n' ∉ line

instance (line : Text) : Decidable (IsCode line) :=
  decidable_of_iff (line ≠ [] ∧ trim line = line ∧ '\n' ∉ line)
    ⟨fun h => ⟨h.1, h.2.1, h.2.2⟩, fun h => ⟨h.ne_nil, h.trim_eq, h.newline_notMem⟩⟩

/-- A line of code keeps apart from a line end that follows it. -/
theorem IsCode.isLine {line : Text} (h : IsCode line) : IsLine line :=
  ⟨h.newline_notMem, fun hr => by
    have hb : isBlank '\r' = false := Text.isBlank_of_getLast?_trim (h.trim_eq.symm ▸ hr)
    contradiction⟩

theorem isCode_of_mem_codeLines {source line : Text} (h : line ∈ codeLines source) :
    IsCode line := by
  obtain ⟨hm, hn⟩ := List.mem_filter.mp h
  obtain ⟨l, hl, rfl⟩ := List.mem_map.mp hm
  exact ⟨by simpa using hn, Text.trim_trim l,
    fun hc => Text.newline_notMem_of_mem_lines hl (Text.mem_of_mem_trim hc)⟩

/-! ## Layouts -/

/-- The text lays out lines: any blanks, line feeds included, stand before each line and
after the last, and any others between a line and the line feed behind it. -/
inductive LaidOut : List Text → Text → Prop
  | nil : LaidOut [] []
  | blank {c : Char} {ls : List Text} {s : Text} (hc : isBlank c = true) (h : LaidOut ls s) :
      LaidOut ls (c :: s)
  | line {l b s : Text} {ls : List Text} (hb : ∀ c ∈ b, isBlank c = true) (hn : '\n' ∉ b)
      (h : LaidOut ls s) : LaidOut (l :: ls) (l ++ (b ++ '\n' :: s))
  | last {l b : Text} (hb : ∀ c ∈ b, isBlank c = true) (hn : '\n' ∉ b) : LaidOut [l] (l ++ b)

/-- What a text lays out are its lines of code, if it can be. -/
theorem codeLines_of_laidOut {ls : List Text} {s : Text} (h : LaidOut ls s)
    (hc : ∀ l ∈ ls, IsCode l) : codeLines s = ls := by
  have hcode {l b : Text} (hl : IsCode l) (hb : ∀ c ∈ b, isBlank c = true) (hn : '\n' ∉ b) :
      '\n' ∉ l ++ b ∧ codeLine (l ++ b) = [l] :=
    ⟨by simp [hl.newline_notMem, hn],
      codeLine_eq_singleton ((Text.trim_append hb l).trans hl.trim_eq) hl.ne_nil⟩
  induction h with
  | nil => rfl
  | blank hb _ ih => rw [codeLines_cons_of_isBlank hb, ih hc]
  | line hb hn _ ih =>
      obtain ⟨hl, hls⟩ := List.forall_mem_cons.mp hc
      obtain ⟨hn', he⟩ := hcode hl hb hn
      rw [← List.append_assoc, codeLines_append_newline hn', he, ih hls]
      rfl
  | last hb hn =>
      obtain ⟨hn', he⟩ := hcode (hc _ List.mem_cons_self) hb hn
      rw [codeLines_of_newline_notMem hn', he]

theorem LaidOut.blanks {ls : List Text} {b s : Text} (hb : ∀ c ∈ b, isBlank c = true)
    (h : LaidOut ls s) : LaidOut ls (b ++ s) := by
  induction b with
  | nil => exact h
  | cons c b ih =>
      obtain ⟨hc, hb⟩ := List.forall_mem_cons.mp hb
      exact .blank hc (ih hb)

/-- A text lays out its lines of code. -/
theorem laidOut_codeLines (s : Text) : LaidOut (codeLines s) s := by
  by_cases hs : '\n' ∈ s
  · obtain ⟨l, r, hr, hl⟩ := List.eq_append_cons_of_mem hs
    have hlt : r.length < s.length := by
      rw [hr, List.length_append, List.length_cons]
      omega
    obtain ⟨b, b', hb, hb', he⟩ := Text.exists_trim l
    have hn : '\n' ∉ b' := fun h => hl (by rw [he]; simp [h])
    have hx : l ++ '\n' :: r = b ++ (trim l ++ (b' ++ '\n' :: r)) :=
      calc
        l ++ '\n' :: r = b ++ (trim l ++ b') ++ '\n' :: r := congrArg (· ++ '\n' :: r) he
        _ = b ++ (trim l ++ (b' ++ '\n' :: r)) := by simp
    rw [hr, codeLines_append_newline hl, hx]
    by_cases ht : trim l = []
    · rw [codeLine_eq_nil ht, ht, List.nil_append, List.nil_append]
      exact .blanks hb (.blanks hb' (.blank (by decide) (laidOut_codeLines r)))
    · rw [codeLine_eq_singleton rfl ht]
      exact .blanks hb (.line hb' hn (laidOut_codeLines r))
  · obtain ⟨b, b', hb, hb', he⟩ := Text.exists_trim s
    have hn : '\n' ∉ b' := fun h => hs (by rw [he]; simp [h])
    have hl : LaidOut (codeLine s) (b ++ (trim s ++ b')) := by
      by_cases ht : trim s = []
      · have h := LaidOut.blanks hb (.blanks hb' .nil)
        rwa [codeLine_eq_nil ht, ht, List.nil_append, ← List.append_nil b']
      · rw [codeLine_eq_singleton rfl ht]
        exact .blanks hb (.last hb' hn)
    rw [codeLines_of_newline_notMem hs]
    rwa [← he] at hl
termination_by s.length

/-- **Layouts**: the lines of code of a text are the texts that can be one and that it
lays out. -/
theorem codeLines_eq_iff {ls : List Text} {s : Text} :
    codeLines s = ls ↔ (∀ l ∈ ls, IsCode l) ∧ LaidOut ls s := by
  constructor
  · intro h
    exact h ▸ ⟨fun _ => isCode_of_mem_codeLines, laidOut_codeLines s⟩
  · intro ⟨hc, hl⟩
    exact codeLines_of_laidOut hl hc

end Layout

end LuaReveal
