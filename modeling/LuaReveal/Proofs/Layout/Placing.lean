import LuaReveal.Layout.Reindent

/-!
# LuaReveal.Proofs.Layout.Placing

Lines of code placed in a buffer, one after another.  A placed line takes off the level
what it closes, stands at the level that is left, and adds what it opens for the next
line (`place_eq`).  So a run over lines puts each of them at a level of its own
(`placedFrom`, `foldl_place_eq`), and a text is indented anew by writing its lines of
code at these levels (`reindent_eq`).
-/

namespace LuaReveal

/-! ## Buffers -/

namespace LineBuffer

/-- A line at a depth, as it is indented. -/
def indented (unit : Text) (p : Nat × Text) : Text :=
  Text.repeated p.1 unit ++ p.2

/-- The buffer with more lines, each of them at a depth of its own. -/
def append (b : LineBuffer) (ps : List (Nat × Text)) : LineBuffer :=
  { b with lines := b.lines ++ (ps.map (indented b.unit)).toArray }

variable (b : LineBuffer) (ps qs : List (Nat × Text))

@[simp] theorem append_nil : b.append [] = b := by
  simp [append]

@[simp] theorem append_append : (b.append ps).append qs = b.append (ps ++ qs) := by
  simp [append]

@[simp] theorem level_append : (b.append ps).level = b.level := rfl

/-- A pushed line is at the level of the buffer. -/
theorem push_eq_append (line : Text) : b.push line = b.append [(b.level, line)] := by
  simp [push, pushRaw, append, indented, indentation]

theorem text_append_empty (unit : Text) :
    ((empty unit).append ps).text = Text.joinLines (ps.map (indented unit)) := by
  simp [text, append, empty]

/-- The buffer with another level for the next line. -/
def atLevel (b : LineBuffer) (level : Nat) : LineBuffer :=
  { b with level }

@[simp] theorem level_atLevel (level : Nat) : (b.atLevel level).level = level := rfl

@[simp] theorem text_atLevel (level : Nat) : (b.atLevel level).text = b.text := rfl

theorem atLevel_append (level : Nat) : (b.atLevel level).append ps = (b.append ps).atLevel level :=
  rfl

@[simp] theorem atLevel_atLevel (level level' : Nat) :
    (b.atLevel level).atLevel level' = b.atLevel level' := rfl

end LineBuffer

namespace Layout

/-! ## Levels -/

/-- What a line takes off the level that it finds. -/
def closing (line : Text) : Nat :=
  if closes line then 1 else 0

/-- What a line adds to the level for the lines after it. -/
def opening (line : Text) : Nat :=
  if opens line then 1 else 0

/-- Lines with the levels that they come to stand at, if the first finds `level`. -/
def placedFrom (level : Nat) : List Text → List (Nat × Text)
  | [] => []
  | line :: ls =>
    (level - closing line, line) :: placedFrom (level - closing line + opening line) ls

/-- The level for the line after the lines, if the first finds `level`. -/
def levelAfter (level : Nat) : List Text → Nat
  | [] => level
  | line :: ls => levelAfter (level - closing line + opening line) ls

/-- Every line is placed, in order and as it is. -/
@[simp] theorem map_snd_placedFrom (level : Nat) (ls : List Text) :
    (placedFrom level ls).map Prod.snd = ls := by
  induction ls generalizing level with
  | nil => rfl
  | cons line ls ih => rw [placedFrom, List.map_cons, ih]

/-- A placed line stands at the level without what it closes, and leaves that level with
what it opens. -/
theorem place_eq (b : LineBuffer) (line : Text) :
    place b line =
      (b.append [(b.level - closing line, line)]).atLevel
        (b.level - closing line + opening line) := by
  have hb : (if closes line then b.dedent else b) = b.atLevel (b.level - closing line) := by
    unfold closing
    split <;> rfl
  have hp : (b.atLevel (b.level - closing line)).push line =
      (b.append [(b.level - closing line, line)]).atLevel (b.level - closing line) :=
    LineBuffer.push_eq_append _ line
  unfold place opening
  rw [hb, hp]
  split <;> rfl

/-- Lines that are placed one by one come after those that were there. -/
theorem foldl_place_eq (b : LineBuffer) (ls : List Text) :
    ls.foldl place b = (b.append (placedFrom b.level ls)).atLevel (levelAfter b.level ls) := by
  induction ls generalizing b with
  | nil => simp [placedFrom, levelAfter, LineBuffer.atLevel]
  | cons line ls ih =>
      rw [List.foldl_cons, place_eq, ih, LineBuffer.level_atLevel, LineBuffer.atLevel_append,
        LineBuffer.append_append, LineBuffer.atLevel_atLevel]
      rfl

/-- A text is indented anew by writing its lines of code at their levels. -/
theorem reindent_eq (unit source : Text) :
    reindent unit source =
      Text.joinLines ((placedFrom 0 (codeLines source)).map (LineBuffer.indented unit)) := by
  rw [reindent, foldl_place_eq, LineBuffer.text_atLevel]
  exact LineBuffer.text_append_empty _ unit

end Layout

end LuaReveal
