import LuaReveal.Text.Utf8

/-!
# LuaReveal.Text.Control

What of a text is left for a reader who is no terminal: the characters that show.
Control characters are left out, save those that lay out lines, and so are the
control sequences that an escape character starts. The bounds of the sequences
are those of ECMA-48, read by the states that terminals have for them.
-/

namespace LuaReveal.Text

/-! ## Characters -/

/-- The code of a character that acts on a terminal: one below that of the blank,
or U+007F. -/
def isControl (c : Char) : Bool :=
  c.toNat < 0x20 || c.toNat == 0x7F

/-- A tab, a line feed, a form feed or a carriage return. -/
def isLayout (c : Char) : Bool :=
  c == '\t' || c == '\n' || c == '\x0c' || c == '\r'

/-- A character that shows where no control sequence surrounds it. -/
def isVisible (c : Char) : Bool :=
  isLayout c || !isControl c

/-! ## Control sequences -/

/-- Where a place of a text lies with regard to control sequences. -/
inductive ControlState where
  /-- No sequence is open. -/
  | outside
  /-- An escape character starts a sequence. -/
  | escape
  /-- A sequence of an escape character and signs, which one more character ends. -/
  | escapeSigns
  /-- A sequence with parameters, which a letter ends. -/
  | parameters
  /-- The head of a string for a device, with nothing in it yet. -/
  | deviceHead
  /-- The head of a string for a device, after parameters. -/
  | deviceParameters
  /-- The head of a string for a device, after signs. -/
  | deviceSigns
  /-- A string that the byte 9C ends, be it a part of a character or not. -/
  | string
  /-- A command to the system that runs the terminal, which a bell ends. -/
  | command
  deriving DecidableEq

namespace ControlState

/-- Where the place after a character lies. In every state an escape character
starts a new sequence, and U+0018 and U+001A give the open one up. -/
def next (state : ControlState) (c : Char) : ControlState :=
  let n := c.toNat
  if n = 0x1B then .escape
  else if n = 0x18 ∨ n = 0x1A then .outside
  else
    match state with
    | outside => outside
    | escape =>
      if c = '[' then parameters
      else if c = ']' then command
      else if c = 'P' then deviceHead
      else if c = 'X' ∨ c = '^' ∨ c = '_' then string
      else if 0x20 ≤ n ∧ n ≤ 0x2F then escapeSigns
      else if 0x30 ≤ n ∧ n ≤ 0x7E then outside
      else escape
    | escapeSigns => if 0x30 ≤ n ∧ n ≤ 0x7E then outside else escapeSigns
    | parameters => if 0x40 ≤ n ∧ n ≤ 0x7E then outside else parameters
    | deviceHead =>
      if 0x20 ≤ n ∧ n ≤ 0x2F then deviceSigns
      else if 0x30 ≤ n ∧ n ≤ 0x3F then deviceParameters
      else if 0x40 ≤ n ∧ n ≤ 0x7E then string
      else deviceHead
    | deviceParameters =>
      if 0x20 ≤ n ∧ n ≤ 0x2F then deviceSigns
      else if 0x3C ≤ n ∧ n ≤ 0x7E then string
      else deviceParameters
    | deviceSigns => if 0x30 ≤ n ∧ n ≤ 0x7E then string else deviceSigns
    | string => if (Utf8.encodeChar c).contains 0x9C then outside else string
    | command => if n = 0x07 then outside else command

/-- The character shows although its place lies in the state. Short sequences let
the layout of the lines through, and strings let nothing through. -/
def shows (state : ControlState) (c : Char) : Bool :=
  match state with
  | outside => isVisible c
  | escape | escapeSigns | parameters => isLayout c
  | deviceHead | deviceParameters | deviceSigns | string | command => false

end ControlState

/-! ## Visible text -/

/-- The characters of a text that show, where the text starts in a state. While
characters are being shown, all that can show does, even if a sequence was broken
by the layout of the lines: it goes on at the next character that cannot, unless
a character above U+007F was shown before. -/
def visibleAfter (showing : Bool) (state : ControlState) : Text → Text
  | [] => []
  | c :: s =>
    if showing && isVisible c then
      c :: visibleAfter true (if c.toNat < 0x80 then state else .outside) s
    else if state.shows c then
      c :: visibleAfter true (state.next c) s
    else
      visibleAfter false (state.next c) s

/-- The characters of a text that show. -/
def visible (s : Text) : Text :=
  visibleAfter false .outside s

end LuaReveal.Text
