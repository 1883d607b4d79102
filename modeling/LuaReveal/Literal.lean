import LuaReveal.Escape.Octal
import LuaReveal.Text.Scan

/-!
# LuaReveal.Literal

Double-quoted literals. The body of a literal is read in units: a backslash with
the character after it, which is no line feed, or one character that is neither
a quote nor a backslash. The first quote that is no unit's second character ends
the literal.
-/

namespace LuaReveal.Literal

open Text (Found Recognizer Piece)

/-! ## Reading -/

/-- How far a literal may reach: to the end of its line, or over line ends. -/
inductive Reach where
  | line
  | lines
  deriving DecidableEq

/-- A character that may stand by itself in a literal's body. -/
def Reach.admits (reach : Reach) (c : Char) : Bool :=
  c != '"' && c != '\\' && (reach == .lines || c != '\n')

/-- The body of the literal whose opening quote is just before the text, and the
text after its closing quote. -/
def readBody? (reach : Reach) : Text → Option (Text × Text)
  | [] => none
  | '"' :: s => some ([], s)
  | '\\' :: c :: s =>
    if c = '\n' then none else (readBody? reach s).map fun (b, r) => ('\\' :: c :: b, r)
  | c :: s =>
    if reach.admits c then (readBody? reach s).map fun (b, r) => (c :: b, r) else none

/-- The body, a quote and what follows make up the text. -/
theorem eq_of_readBody? {reach : Reach} {s body rest : Text}
    (h : readBody? reach s = some (body, rest)) : s = body ++ '"' :: rest := by
  fun_induction readBody? reach s generalizing body rest with
  | case1 => simp at h
  | case2 s =>
    obtain ⟨rfl, rfl⟩ := by simpa using h
    rfl
  | case3 => simp at h
  | case4 c s _ ih =>
    obtain ⟨⟨b, r⟩, hb, he⟩ := Option.map_eq_some_iff.mp h
    obtain ⟨rfl, rfl⟩ := by simpa using he
    simp [ih hb]
  | case5 c s _ _ _ ih =>
    obtain ⟨⟨b, r⟩, hb, he⟩ := Option.map_eq_some_iff.mp h
    obtain ⟨rfl, rfl⟩ := by simpa using he
    simp [ih hb]
  | case6 => simp at h

/-- What follows a literal is shorter than what its body started. -/
theorem length_rest_lt_of_readBody? {reach : Reach} {s body rest : Text}
    (h : readBody? reach s = some (body, rest)) : rest.length < s.length := by
  rw [eq_of_readBody? h]
  simp
  omega

/-- A quote ends the body of the literal whose opening quote is just before the
text. -/
def isClosed (reach : Reach) : Text → Bool
  | [] => false
  | '"' :: _ => true
  | '\\' :: c :: s => c != '\n' && isClosed reach s
  | c :: s => reach.admits c && isClosed reach s

/-- A body can be read exactly if a quote ends it. -/
theorem isSome_readBody? (reach : Reach) (s : Text) :
    (readBody? reach s).isSome = isClosed reach s := by
  fun_induction readBody? reach s <;> simp_all [isClosed]

/-- A body between quotes. -/
def quote (body : Text) : Text :=
  '"' :: (body ++ ['"'])

/-- The literal at a place: its value is its body. A body is only read once its
end is known to be there. -/
def find? (s : Text) : Option (Found Text) :=
  match s with
  | '"' :: s =>
    if isClosed .line s then
      (readBody? .line s).map fun (body, rest) => ⟨body, quote body, rest⟩
    else none
  | _ => none

@[simp] theorem find?_quote (s : Text) :
    find? ('"' :: s) =
      (readBody? .line s).map fun (body, rest) => ⟨body, quote body, rest⟩ := by
  simp only [find?, ← isSome_readBody?]
  cases readBody? .line s <;> simp

theorem find?_of_ne {c : Char} (h : c ≠ '"') (s : Text) : find? (c :: s) = none := by
  simp [find?, h]

theorem eq_of_find? {s : Text} {f : Found Text} (h : find? s = some f) :
    f.taken = quote f.value ∧ f.taken ++ f.rest = s := by
  match s with
  | [] => simp [find?] at h
  | c :: s =>
    by_cases hc : c = '"'
    · subst hc
      obtain ⟨⟨b, r⟩, hb, rfl⟩ := Option.map_eq_some_iff.mp (find?_quote s ▸ h)
      simp [quote, eq_of_readBody? hb]
    · simp [find?_of_ne hc] at h

/-- Recognises a literal that lies on one line. -/
def recognizer : Recognizer Text where
  find _ s := find? s
  taken_append_rest h := (eq_of_find? h).2
  taken_ne_nil h := by simp [(eq_of_find? h).1, quote]

/-- The pieces of a source text: its literals and the characters between them. -/
def pieces (source : Text) : List (Piece Text) :=
  recognizer.scan source

/-! ## Decoding -/

/-- The literal with the decoded body. Escapes that are not decoded stay as they
are written. -/
def requote (policy : Escape.Policy) (body : Text) : Text :=
  quote (Escape.decode policy .quoted body)

/-- What the decoder writes for a piece of a source text. -/
def decodePiece (policy : Escape.Policy) : Piece Text → Text
  | .plain c => [c]
  | .found body _ => requote policy body

/-- The source text with the octal escapes in its literals decoded; what is
outside of literals stays. -/
def decodeAll (policy : Escape.Policy) (source : Text) : Text :=
  (pieces source).flatMap (decodePiece policy)

end LuaReveal.Literal
