import LuaReveal.Text.Basic

/-!
# LuaReveal.Text.Lines

Lines of a text. A line ends at a line feed, with a carriage return just before
it belonging to the line end; what follows the last line feed is a line only if
it is not empty.
-/

namespace LuaReveal.Text

/-- The lines of a text without their line ends. -/
def lines : Text → List Text
  | [] => []
  | '\n' :: s => [] :: lines s
  | '\r' :: '\n' :: s => [] :: lines s
  | c :: s =>
    match lines s with
    | [] => [[c]]
    | l :: ls => (c :: l) :: ls

/-- The lines written one after another with a line feed between them. -/
def joinLines : List Text → Text
  | [] => []
  | [l] => l
  | l :: l' :: ls => l ++ '\n' :: joinLines (l' :: ls)

@[simp] theorem lines_nil : lines [] = [] := rfl

@[simp] theorem lines_newline (s : Text) : lines ('\n' :: s) = [] :: lines s := by
  simp [lines]

@[simp] theorem joinLines_singleton (l : Text) : joinLines [l] = l := rfl

@[simp] theorem joinLines_cons_cons (l l' : Text) (ls : List Text) :
    joinLines (l :: l' :: ls) = l ++ '\n' :: joinLines (l' :: ls) := rfl

/-- No line holds a line feed. -/
theorem newline_notMem_of_mem_lines {s l : Text} (h : l ∈ lines s) : '\n' ∉ l := by
  fun_induction lines s generalizing l with
  | case1 => simp at h
  | case2 s ih =>
    rcases List.mem_cons.mp h with rfl | h
    · simp
    · exact ih h
  | case3 s ih =>
    rcases List.mem_cons.mp h with rfl | h
    · simp
    · exact ih h
  | case4 c s hc _ hs ih =>
    obtain rfl := by simpa using h
    simpa using fun e => hc e.symm
  | case5 c s hc _ l₀ ls hs ih =>
    rw [hs] at ih
    rcases List.mem_cons.mp h with rfl | h
    · simp only [List.mem_cons, not_or]
      exact ⟨fun e => hc e.symm, ih List.mem_cons_self⟩
    · exact ih (List.mem_cons_of_mem _ h)

end LuaReveal.Text
