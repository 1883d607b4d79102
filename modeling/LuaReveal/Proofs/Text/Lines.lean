import LuaReveal.Text.Lines

/-!
# LuaReveal.Proofs.Text.Lines

Lines that are joined are read one by one (`lines_joinLines_append`), each without a
carriage return at its end, which belongs to the line end (`withoutReturn`), and the last
as it is.  So they are told apart again (`lines_joinLines`), if each of them can be a line
before a line feed (`IsLine`) and the last is not empty.

Texts with a line feed after each are told apart only if none of them holds one
(`lines_flatMap_newline_iff`); otherwise there are more lines than texts
(`length_lines_flatMap_newline`).
-/

namespace LuaReveal.Text

/-- The text is read as one line if a line feed follows: it holds none, and no
carriage return at its end would belong to the line end. -/
def IsLine (l : Text) : Prop :=
  '\n' ∉ l ∧ l.getLast? ≠ some '\r'

instance (l : Text) : Decidable (IsLine l) :=
  inferInstanceAs (Decidable (_ ∧ _))

theorem isLine_nil : IsLine [] := by
  decide

/-- What ends as a line does is one, if it holds no line feed. -/
theorem IsLine.append {b l : Text} (h : IsLine l) (hl : l ≠ []) (hb : '\n' ∉ b) :
    IsLine (b ++ l) := by
  refine ⟨?_, ?_⟩
  · rw [List.mem_append, not_or]
    exact ⟨hb, h.1⟩
  · rw [List.getLast?_append, List.getLast?_eq_some_getLast hl, Option.some_or,
      ← List.getLast?_eq_some_getLast hl]
    exact h.2

/-- Only the empty text has no lines. -/
theorem lines_eq_nil_iff {s : Text} : lines s = [] ↔ s = [] := by
  fun_cases lines s <;> simp_all

/-- What is left of a line is one. -/
theorem IsLine.tail {c : Char} {l : Text} (h : IsLine (c :: l)) : IsLine l := by
  refine ⟨fun hn => h.1 (List.mem_cons_of_mem c hn), fun hr => h.2 ?_⟩
  rw [List.getLast?_cons, hr]
  rfl

/-- A character that starts no line end starts the first line. -/
theorem lines_cons {c : Char} {s l : Text} {ls : List Text} (hn : c ≠ '\n')
    (hr : c = '\r' → s.head? ≠ some '\n') (h : lines s = l :: ls) :
    lines (c :: s) = (c :: l) :: ls := by
  unfold lines
  split
  · contradiction
  · next he =>
      obtain ⟨rfl, _⟩ := List.cons.inj he
      exact absurd rfl hn
  · next he =>
      obtain ⟨rfl, rfl⟩ := List.cons.inj he
      exact absurd rfl (hr rfl)
  · next he =>
      obtain ⟨rfl, rfl⟩ := List.cons.inj he
      rw [h]

theorem lines_append_newline {l : Text} (h : IsLine l) (s : Text) :
    lines (l ++ '\n' :: s) = l :: lines s := by
  induction l with
  | nil => exact lines_newline s
  | cons c l ih =>
      refine lines_cons (fun hc => h.1 (hc ▸ List.mem_cons_self)) ?_ (ih h.tail)
      rintro rfl
      cases l with
      | nil => exact absurd rfl h.2
      | cons d l =>
          intro hd
          obtain rfl : d = '\n' := by simpa using hd
          exact h.1 (by simp)

/-- A carriage return before a line feed belongs to the line end. -/
theorem lines_append_carriageReturn {l : Text} (h : '\n' ∉ l) (s : Text) :
    lines (l ++ '\r' :: '\n' :: s) = l :: lines s := by
  induction l with
  | nil => simp [lines]
  | cons c l ih =>
      obtain ⟨hc, hl⟩ := List.ne_and_not_mem_of_not_mem_cons h
      have hr : (l ++ '\r' :: '\n' :: s).head? ≠ some '\n' := by
        cases l with
        | nil => simp
        | cons d l => simpa using Ne.symm (List.ne_and_not_mem_of_not_mem_cons hl).1
      exact lines_cons (Ne.symm hc) (fun _ => hr) (ih hl)

/-- A text without a line feed is one line, a carriage return at its end included. -/
theorem lines_of_newline_notMem {l : Text} (h : '\n' ∉ l) (hl : l ≠ []) : lines l = [l] := by
  induction l with
  | nil => contradiction
  | cons c l ih =>
      obtain ⟨hc, ht⟩ := List.ne_and_not_mem_of_not_mem_cons h
      cases l with
      | nil => simp [lines, Ne.symm hc]
      | cons d l =>
          have hd : d ≠ '\n' := Ne.symm (List.ne_and_not_mem_of_not_mem_cons ht).1
          exact lines_cons (Ne.symm hc) (fun _ => by simpa using hd) (ih ht (by simp))

/-- A character that is no line feed opens no line, if a line follows it. -/
theorem length_lines_cons {c : Char} {s : Text} (hc : c ≠ '\n') (hs : s ≠ []) :
    (lines (c :: s)).length = (lines s).length := by
  by_cases hr : c = '\r' ∧ s.head? = some '\n'
  · obtain ⟨rfl, hh⟩ := hr
    obtain ⟨t, rfl⟩ := List.head?_eq_some_iff.mp hh
    simp [lines]
  · obtain ⟨l, ls, h⟩ := List.exists_cons_of_ne_nil (mt lines_eq_nil_iff.mp hs)
    rw [lines_cons hc (fun he hh => hr ⟨he, hh⟩) h, h, List.length_cons, List.length_cons]

/-- A text that a line feed ends has a line for each line feed in it, and one for that
at its end. -/
theorem length_lines_append_newline (l s : Text) :
    (lines (l ++ '\n' :: s)).length = l.count '\n' + 1 + (lines s).length := by
  induction l with
  | nil =>
      rw [List.nil_append, lines_newline, List.length_cons, List.count_nil]
      omega
  | cons c l ih =>
      by_cases hc : c = '\n'
      · subst hc
        rw [List.cons_append, lines_newline, List.length_cons, ih, List.count_cons_self]
        omega
      · rw [List.cons_append, length_lines_cons hc (by simp), ih, List.count_cons_of_ne hc]

/-! ## Joined lines -/

/-- The line as it is read if a line feed follows it. -/
def withoutReturn (l : Text) : Text :=
  if l.getLast? = some '\r' then l.dropLast else l

theorem IsLine.withoutReturn_eq {l : Text} (h : IsLine l) : withoutReturn l = l :=
  if_neg h.2

/-- Nothing but a carriage return is taken off a line. -/
theorem withoutReturn_eq_or (l : Text) : withoutReturn l = l ∨ withoutReturn l ++ ['\r'] = l := by
  unfold withoutReturn
  split
  · next h =>
      obtain ⟨m, rfl⟩ := List.getLast?_eq_some_iff.mp h
      exact .inr (by rw [List.dropLast_concat])
  · exact .inl rfl

/-- A line feed ends the line before it. -/
theorem lines_append_newline_of_notMem {l : Text} (h : '\n' ∉ l) (s : Text) :
    lines (l ++ '\n' :: s) = withoutReturn l :: lines s := by
  by_cases hr : l.getLast? = some '\r'
  · obtain ⟨m, rfl⟩ := List.getLast?_eq_some_iff.mp hr
    have hm : '\n' ∉ m := fun hn => h (List.mem_append_left _ hn)
    rw [withoutReturn, if_pos hr, List.dropLast_concat, List.append_assoc]
    exact lines_append_carriageReturn hm s
  · rw [withoutReturn, if_neg hr]
    exact lines_append_newline ⟨h, hr⟩ s

/-- Joined lines are read one by one up to the last. -/
theorem lines_joinLines_append {ls ms : List Text} (h : ∀ l ∈ ls, '\n' ∉ l) (hm : ms ≠ []) :
    lines (joinLines (ls ++ ms)) = ls.map withoutReturn ++ lines (joinLines ms) := by
  induction ls with
  | nil => rfl
  | cons l ls ih =>
      obtain ⟨hl, hls⟩ := List.forall_mem_cons.mp h
      obtain ⟨m, t, ht⟩ := List.exists_cons_of_ne_nil (List.append_ne_nil_of_right_ne_nil ls hm)
      have hj : joinLines (l :: (ls ++ ms)) = l ++ '\n' :: joinLines (ls ++ ms) := by
        rw [ht]
        rfl
      rw [List.cons_append, hj, lines_append_newline_of_notMem hl, ih hls]
      rfl

/-- Lines that a line feed may follow are read as they are up to the last. -/
theorem lines_joinLines_append_singleton {ls : List Text} (h : ∀ l ∈ ls, IsLine l) (l : Text) :
    lines (joinLines (ls ++ [l])) = ls ++ lines l := by
  have hs : ls.map withoutReturn = ls := by
    rw [List.map_congr_left fun l hl => (h l hl).withoutReturn_eq, List.map_id']
  rw [lines_joinLines_append (fun l hl => (h l hl).1) (by simp), hs]
  rfl

/-- Joined lines are told apart again. -/
theorem lines_joinLines {ls : List Text} (h : ∀ l ∈ ls, IsLine l)
    (hl : ls.getLast? ≠ some []) : lines (joinLines ls) = ls := by
  rcases List.eq_nil_or_concat ls with rfl | ⟨ms, l, rfl⟩
  · rfl
  · rw [List.concat_eq_append] at h hl ⊢
    have hn : l ≠ [] := fun he => hl (by rw [he, List.getLast?_concat])
    rw [lines_joinLines_append_singleton fun m hm => h m (List.mem_append_left _ hm),
      lines_of_newline_notMem (h l (by simp)).1 hn]

/-- An empty line after the others is a line feed after them. -/
theorem joinLines_append_nil {ls : List Text} (h : ls ≠ []) :
    joinLines (ls ++ [[]]) = joinLines ls ++ ['\n'] := by
  induction ls with
  | nil => contradiction
  | cons l ls ih =>
      cases ls with
      | nil => rfl
      | cons m ls =>
          rw [List.cons_append, List.cons_append, joinLines_cons_cons, ← List.cons_append,
            ih (List.cons_ne_nil m ls), joinLines_cons_cons, List.append_assoc, List.cons_append]

/-- An empty line after the others is not read. -/
theorem lines_joinLines_append_nil {ls : List Text} (h : ∀ l ∈ ls, IsLine l) :
    lines (joinLines (ls ++ [[]])) = ls := by
  rw [lines_joinLines_append_singleton h, lines_nil, List.append_nil]

/-- Joined lines are told apart again if a line feed ends the last. -/
theorem lines_joinLines_newline {ls : List Text} (h : ∀ l ∈ ls, IsLine l) (hn : ls ≠ []) :
    lines (joinLines ls ++ ['\n']) = ls := by
  rw [← joinLines_append_nil hn, lines_joinLines_append_nil h]

/-! ## Ended lines -/

/-- Texts with a line feed after each are as many lines as they are, and one more for
each line feed within them. -/
theorem length_lines_flatMap_newline (ls : List Text) :
    (lines (ls.flatMap (· ++ ['\n']))).length = ls.length + ls.flatten.count '\n' := by
  induction ls with
  | nil => rfl
  | cons l ls ih =>
      rw [List.flatMap_cons, List.append_assoc, List.singleton_append, length_lines_append_newline,
        ih, List.length_cons, List.flatten_cons, List.count_append]
      omega

/-- Texts with a line feed after each are read one by one exactly if none holds one. -/
theorem lines_flatMap_newline_iff {ls : List Text} :
    lines (ls.flatMap (· ++ ['\n'])) = ls.map withoutReturn ↔ '\n' ∉ ls.flatten := by
  constructor
  · intro h
    have hlen := congrArg List.length h
    rw [length_lines_flatMap_newline, List.length_map] at hlen
    exact List.count_eq_zero.mp (by omega)
  · intro h
    induction ls with
    | nil => rfl
    | cons l ls ih =>
        rw [List.flatten_cons, List.mem_append, not_or] at h
        rw [List.flatMap_cons, List.append_assoc, List.singleton_append,
          lines_append_newline_of_notMem h.1, ih h.2, List.map_cons]

end LuaReveal.Text
