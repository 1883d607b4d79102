import LuaReveal.Text.Basic

/-!
# LuaReveal.Text.Utf8

Texts as bytes in UTF-8. Reading fails at the first byte that no well-formed
text has there, and says how many bytes of a character it had seen.
-/

namespace LuaReveal.Text.Utf8

/-! ## Writing -/

/-- A byte that is not the first of its character: `10` and six bits. -/
def continuation (bits : Nat) : UInt8 :=
  UInt8.ofNat (0x80 + bits % 0x40)

/-- The bytes of a character, one to four of them. -/
def encodeChar (c : Char) : List UInt8 :=
  let n := c.toNat
  if n < 0x80 then
    [UInt8.ofNat n]
  else if n < 0x800 then
    [UInt8.ofNat (0xC0 + n / 0x40), continuation n]
  else if n < 0x10000 then
    [UInt8.ofNat (0xE0 + n / 0x1000), continuation (n / 0x40), continuation n]
  else
    [UInt8.ofNat (0xF0 + n / 0x40000), continuation (n / 0x1000), continuation (n / 0x40),
     continuation n]

/-- The bytes of a text. -/
def encode (s : Text) : List UInt8 :=
  s.flatMap encodeChar

/-- The number of bytes of a text. -/
def byteCount (s : Text) : Nat :=
  (encode s).length

/-! ## Reading -/

/-- Why bytes are no text. The index counts the bytes of the whole characters
before the fault. -/
inductive Fault where
  /-- A sequence of `length` bytes at `index` that no character starts with,
  less its last byte or that byte itself. -/
  | malformed (length index : Nat)
  /-- The bytes end inside the character that starts at `index`. -/
  | unfinished (index : Nat)
  deriving DecidableEq

/-- The wording of a fault. -/
def Fault.message : Fault → Text
  | .malformed length index =>
    s!"invalid utf-8 sequence of {length} bytes from index {index}".toList
  | .unfinished index => s!"incomplete utf-8 byte sequence from index {index}".toList

/-- How a character goes on after its first byte. -/
inductive Lead where
  /-- The byte is the whole character. -/
  | ascii
  /-- `more` bytes follow, the first of them from `low` to `high`. -/
  | multi (more : Nat) (low high : Nat)
  /-- No character starts with the byte. -/
  | stray
  deriving DecidableEq

/-- The kind of a character's first byte. The narrowed ranges leave out the
overlong forms, the surrogates and what lies above U+10FFFF. -/
def lead (b : UInt8) : Lead :=
  let n := b.toNat
  if n < 0x80 then .ascii
  else if n < 0xC2 then .stray
  else if n < 0xE0 then .multi 1 0x80 0xBF
  else if n = 0xE0 then .multi 2 0xA0 0xBF
  else if n = 0xED then .multi 2 0x80 0x9F
  else if n < 0xF0 then .multi 2 0x80 0xBF
  else if n = 0xF0 then .multi 3 0x90 0xBF
  else if n < 0xF4 then .multi 3 0x80 0xBF
  else if n = 0xF4 then .multi 3 0x80 0x8F
  else .stray

/-- The bits that a first byte gives to a character with `more` bytes after it:
five, four or three. -/
def leadBits (more : Nat) (b : UInt8) : Nat :=
  match more with
  | 1 => b.toNat % 0x20
  | 2 => b.toNat % 0x10
  | _ => b.toNat % 0x08

/-- Reads the remaining bytes of a character on top of the bits `n`. The first
of them is from `low` to `high` and the others from 0x80 to 0xBF; `seen` bytes of
the character lie before them. -/
def readMore (start : Nat) : (more seen low high n : Nat) → List UInt8 →
    Except Fault (Char × List UInt8)
  | 0, _, _, _, n, bs => .ok (Char.ofNat n, bs)
  | _ + 1, _, _, _, _, [] => .error (.unfinished start)
  | more + 1, seen, low, high, n, b :: bs =>
    if low ≤ b.toNat ∧ b.toNat ≤ high then
      readMore start more (seen + 1) 0x80 0xBF (n * 0x40 + b.toNat % 0x40) bs
    else
      .error (.malformed seen start)

/-- The first character of the bytes, which lie at `start`, and the bytes after
it. -/
def readChar (start : Nat) (b : UInt8) (bs : List UInt8) : Except Fault (Char × List UInt8) :=
  match lead b with
  | .ascii => .ok (Char.ofNat b.toNat, bs)
  | .multi more low high => readMore start more 1 low high (leadBits more b) bs
  | .stray => .error (.malformed 1 start)

theorem length_le_of_readMore {start more seen low high n : Nat} {bs rest : List UInt8} {c : Char}
    (h : readMore start more seen low high n bs = .ok (c, rest)) : rest.length ≤ bs.length := by
  induction more generalizing seen low high n bs with
  | zero =>
    simp only [readMore, Except.ok.injEq, Prod.mk.injEq] at h
    simp [h.2]
  | succ more ih =>
    cases bs with
    | nil => simp [readMore] at h
    | cons b bs =>
      simp only [readMore] at h
      split at h
      · exact Nat.le_succ_of_le (ih h)
      · simp at h

/-- What is left after a character is no longer than what came after its first
byte. -/
theorem length_le_of_readChar {start : Nat} {b : UInt8} {bs rest : List UInt8} {c : Char}
    (h : readChar start b bs = .ok (c, rest)) : rest.length ≤ bs.length := by
  unfold readChar at h
  split at h
  · simp only [Except.ok.injEq, Prod.mk.injEq] at h
    simp [h.2]
  · exact length_le_of_readMore h
  · simp at h

/-- The text of bytes that lie at `start`. -/
def decodeFrom (start : Nat) : List UInt8 → Except Fault Text
  | [] => .ok []
  | b :: bs =>
    match _h : readChar start b bs with
    | .error fault => .error fault
    | .ok (c, rest) => (decodeFrom (start + (encodeChar c).length) rest).map (c :: ·)
termination_by bs => bs.length
decreasing_by
  have := length_le_of_readChar _h
  simp only [List.length_cons]
  omega

/-- The text that the bytes write in UTF-8. -/
def decode (bs : List UInt8) : Except Fault Text :=
  decodeFrom 0 bs

end LuaReveal.Text.Utf8
