import Mathlib.Algebra.GroupWithZero.Nat
import LuaReveal.Proofs.Literal.Body
import LuaReveal.Proofs.Text.Scanning

/-!
# LuaReveal.Proofs.Literal.Structure

Decoding keeps the literals of a source text where they are.  A text is cut into
the gaps between its literals and the literals themselves (`gaps`, `literals`,
`weave_gaps_literals`), and the pieces of the decoded text are those of the
source text with each body decoded (`pieces_decodeAll`).

A quote that opens no literal is where this could go wrong: it might open one
once the literals after it have changed.  It cannot, since the attempt to read a
body from it runs into the end of its line before it meets a quote that could
open a literal (`isClosed_decodeAll`).
-/

namespace LuaReveal.Text.Piece

/-! ## Gaps and pieces -/

/-- The texts between the recognised pieces: before the first, between two that
follow one another, and after the last. -/
def gaps : List (Piece α) → List Text
  | [] => [[]]
  | .plain c :: ps => (gaps ps).modifyHead (c :: ·)
  | .found _ _ :: ps => [] :: gaps ps

/-- The texts that were recognised. -/
def takens : List (Piece α) → List Text
  | [] => []
  | .plain _ :: ps => takens ps
  | .found _ taken :: ps => taken :: takens ps

/-- The recognised values. -/
def values : List (Piece α) → List α
  | [] => []
  | .plain _ :: ps => values ps
  | .found value _ :: ps => value :: values ps

/-- Gaps and what lies between them, written in turn. -/
def weave : List Text → List Text → Text
  | g :: gs, t :: ts => g ++ t ++ weave gs ts
  | gs, _ => gs.flatten

theorem weave_modifyHead_cons (c : Char) {gs : List Text} (h : gs ≠ []) (ts : List Text) :
    weave (gs.modifyHead (c :: ·)) ts = c :: weave gs ts := by
  cases gs with
  | nil => contradiction
  | cons g gs => cases ts <;> simp [weave]

theorem gaps_ne_nil (ps : List (Piece α)) : gaps ps ≠ [] := by
  induction ps with
  | nil => simp [gaps]
  | cons p ps ih =>
      cases p with
      | plain c => simpa [gaps] using ih
      | found v t => simp [gaps]

/-- There is one gap more than there are recognised pieces. -/
theorem length_gaps (ps : List (Piece α)) : (gaps ps).length = (takens ps).length + 1 := by
  induction ps with
  | nil => rfl
  | cons p ps ih =>
      cases p with
      | plain c => simpa [gaps, takens] using ih
      | found v t => simp [gaps, takens, ih]

/-- The gaps and the recognised texts make up the text of the pieces. -/
theorem weave_gaps_takens (ps : List (Piece α)) :
    weave (gaps ps) (takens ps) = ps.flatMap text := by
  induction ps with
  | nil => rfl
  | cons p ps ih =>
      cases p with
      | plain c =>
          rw [gaps, takens, weave_modifyHead_cons c (gaps_ne_nil ps), ih]
          rfl
      | found v t =>
          rw [gaps, takens, weave, ih]
          rfl

/-- A number that adds up over each of the woven texts adds up over all of them. -/
theorem apply_weave (f : Text → Nat) (ts : List Text)
    (hf : ∀ t ∈ ts, ∀ g w, f (g ++ t ++ w) = f g + f t + f w) :
    (gs : List Text) → gs.length = ts.length + 1 →
    f (weave gs ts) = (gs.map f).sum + (ts.map f).sum := by
  induction ts with
  | nil =>
      intro gs hl
      obtain ⟨g, rfl⟩ := List.length_eq_one_iff.mp hl
      simp [weave]
  | cons t ts ih =>
      intro gs hl
      match gs with
      | g :: gs =>
          have hl' : gs.length = ts.length + 1 := by simpa using hl
          have hw := ih (fun u hu => hf u (List.mem_cons_of_mem t hu)) gs hl'
          simp only [weave, hf t List.mem_cons_self, List.map_cons, List.sum_cons, hw]
          omega

end LuaReveal.Text.Piece

namespace LuaReveal.Literal

open Text (Piece)

/-! ## The pieces of a source text -/

/-- The scan for literals does not look at the character before a place. -/
theorem scanAfter_eq_pieces (prev : Option Char) (s : Text) :
    recognizer.scanAfter prev s = pieces s := by
  cases s with
  | nil => simp [pieces, Text.Recognizer.scan, Text.Recognizer.scanAfter]
  | cons c s =>
      rw [pieces, Text.Recognizer.scan, Text.Recognizer.scanAfter, Text.Recognizer.scanAfter]
      rfl

@[simp] theorem pieces_nil : pieces [] = [] := by
  simp [pieces, Text.Recognizer.scan, Text.Recognizer.scanAfter]

theorem pieces_of_find?_eq_none {c : Char} {s : Text} (h : find? (c :: s) = none) :
    pieces (c :: s) = .plain c :: pieces s := by
  rw [pieces, Text.Recognizer.scan, recognizer.scanAfter_cons_of_none h, scanAfter_eq_pieces]

theorem pieces_of_find?_eq_some {c : Char} {s : Text} {f : Text.Found Text}
    (h : find? (c :: s) = some f) :
    pieces (c :: s) = .found f.value f.taken :: pieces f.rest := by
  rw [pieces, Text.Recognizer.scan, recognizer.scanAfter_cons_of_some h, scanAfter_eq_pieces]

/-- A body on one line between quotes is a piece. -/
theorem pieces_quote_append {body : Text} (h : Body .line body) (rest : Text) :
    pieces (quote body ++ rest) = .found body (quote body) :: pieces rest := by
  have hq : quote body ++ rest = '"' :: (body ++ '"' :: rest) := by simp [quote]
  rw [hq]
  exact pieces_of_find?_eq_some (by rw [find?_quote, h.readBody?_append rest]; rfl)

/-- A quote that no quote closes is a plain piece. -/
theorem pieces_unclosed {s : Text} (h : isClosed .line s = false) :
    pieces ('"' :: s) = .plain '"' :: pieces s :=
  pieces_of_find?_eq_none (by simp [find?, h])

theorem pieces_plain {c : Char} (hc : c ≠ '"') (s : Text) :
    pieces (c :: s) = .plain c :: pieces s :=
  pieces_of_find?_eq_none (find?_of_ne hc s)

/-- Induction along the pieces of a source text. -/
@[elab_as_elim]
theorem pieces_induction {motive : Text → Prop}
    (nil : motive [])
    (literal : ∀ body rest, Body .line body → motive rest → motive (quote body ++ rest))
    (unclosed : ∀ s, isClosed .line s = false → motive s → motive ('"' :: s))
    (plain : ∀ c s, c ≠ '"' → motive s → motive (c :: s))
    (s : Text) : motive s := by
  match s with
  | [] => exact nil
  | c :: s =>
      by_cases hc : c = '"'
      · subst hc
        cases hr : readBody? .line s with
        | none =>
            refine unclosed s ?_ (pieces_induction nil literal unclosed plain s)
            rw [← isSome_readBody?, hr]
            rfl
        | some p =>
            obtain ⟨body, rest⟩ := p
            obtain ⟨hb, he⟩ := readBody?_eq_some_iff.mp hr
            have hlt := length_rest_lt_of_readBody? hr
            have hq : '"' :: s = quote body ++ rest := by simp [quote, he]
            rw [hq]
            exact literal body rest hb (pieces_induction nil literal unclosed plain rest)
      · exact plain c s hc (pieces_induction nil literal unclosed plain s)
termination_by s.length

/-! ## The decoded source text -/

section Decode

variable (policy : Escape.Policy)

@[simp] theorem decodeAll_nil : decodeAll policy [] = [] := by
  simp [decodeAll]

theorem decodeAll_literal {body : Text} (h : Body .line body) (rest : Text) :
    decodeAll policy (quote body ++ rest) = requote policy body ++ decodeAll policy rest := by
  rw [decodeAll, pieces_quote_append h]
  rfl

theorem decodeAll_unclosed {s : Text} (h : isClosed .line s = false) :
    decodeAll policy ('"' :: s) = '"' :: decodeAll policy s := by
  rw [decodeAll, pieces_unclosed h]
  rfl

theorem decodeAll_plain {c : Char} (hc : c ≠ '"') (s : Text) :
    decodeAll policy (c :: s) = c :: decodeAll policy s := by
  rw [decodeAll, pieces_plain hc]
  rfl

/-- A quote that no quote closes is still not closed once what follows it is
decoded. -/
theorem isClosed_decodeAll {s : Text} (h : isClosed .line s = false) :
    isClosed .line (decodeAll policy s) = false := by
  fun_induction isClosed .line s with
  | case1 => simp [isClosed]
  | case2 => contradiction
  | case3 c s ih =>
      rw [decodeAll_plain policy (by decide)]
      by_cases hc : c = '\n'
      · rw [decodeAll_plain policy (by rw [hc]; decide)]
        simp [isClosed, hc]
      · have hs : isClosed .line s = false := by simpa [hc] using h
        by_cases hq : c = '"'
        · subst hq
          rw [decodeAll_unclosed policy hs, isClosed, ih hs]
          rfl
        · rw [decodeAll_plain policy hq, isClosed, ih hs, Bool.and_false]
  | case4 c s hq hb ih =>
      rw [decodeAll_plain policy hq]
      by_cases hc : c = '\\'
      · subst hc
        cases s with
        | nil => simp [isClosed, Reach.admits]
        | cons d s => exact absurd rfl (hb d s rfl)
      · have he (t : Text) : isClosed .line (c :: t) =
            (Reach.line.admits c && isClosed .line t) := by
          rw [isClosed]
          · exact hq
          · exact fun d r hd => absurd hd hc
        rw [he]
        cases ha : Reach.line.admits c with
        | false => rfl
        | true =>
            rw [ha, Bool.true_and] at h
            rw [Bool.true_and, ih h]

/-- A piece with its body decoded. -/
def decodedPiece (policy : Escape.Policy) : Piece Text → Piece Text
  | .plain c => .plain c
  | .found body _ => .found (Escape.decode policy .quoted body) (requote policy body)

/-- The pieces of the decoded text are those of the source text with their
bodies decoded. -/
theorem pieces_decodeAll (s : Text) :
    pieces (decodeAll policy s) = (pieces s).map (decodedPiece policy) := by
  induction s using pieces_induction with
  | nil => simp
  | literal body rest hb ih =>
      rw [decodeAll_literal policy hb, requote, pieces_quote_append hb.decode, ih,
        pieces_quote_append hb]
      rfl
  | unclosed s hs ih =>
      rw [decodeAll_unclosed policy hs, pieces_unclosed (isClosed_decodeAll policy hs), ih,
        pieces_unclosed hs]
      rfl
  | plain c s hc ih =>
      rw [decodeAll_plain policy hc, pieces_plain hc, ih, pieces_plain hc]
      rfl

end Decode

/-! ## Gaps and literals of a source text -/

/-- The texts between the literals of a source text, from its start to its end. -/
def gaps (source : Text) : List Text :=
  Piece.gaps (pieces source)

/-- The literals of a source text with their quotes. -/
def literals (source : Text) : List Text :=
  Piece.takens (pieces source)

/-- The bodies of the literals of a source text. -/
def bodies (source : Text) : List Text :=
  Piece.values (pieces source)

/-- Gaps and literals make up the source text. -/
theorem weave_gaps_literals (source : Text) :
    Piece.weave (gaps source) (literals source) = source := by
  rw [gaps, literals, Piece.weave_gaps_takens]
  exact recognizer.flatMap_text_scan source

/-- There is one gap more than there are literals. -/
theorem length_gaps (source : Text) : (gaps source).length = (literals source).length + 1 :=
  Piece.length_gaps _

/-- The literals are the bodies between quotes. -/
theorem literals_eq_map_quote (source : Text) : literals source = (bodies source).map quote := by
  unfold literals bodies
  induction source using pieces_induction with
  | nil => simp [Piece.takens, Piece.values]
  | literal body rest hb ih =>
      rw [pieces_quote_append hb, Piece.takens, ih]
      rfl
  | unclosed s hs ih =>
      rw [pieces_unclosed hs, Piece.takens, ih]
      rfl
  | plain c s hc ih =>
      rw [pieces_plain hc, Piece.takens, ih]
      rfl

/-- The bodies of the literals of a source text lie on one line. -/
theorem body_of_mem_bodies {source body : Text} (h : body ∈ bodies source) :
    Body .line body := by
  unfold bodies at h
  induction source using pieces_induction with
  | nil => simp [Piece.values] at h
  | literal b rest hb ih =>
      rw [pieces_quote_append hb] at h
      rcases List.mem_cons.mp h with rfl | h
      · exact hb
      · exact ih h
  | unclosed s hs ih =>
      rw [pieces_unclosed hs] at h
      exact ih h
  | plain c s hc ih =>
      rw [pieces_plain hc] at h
      exact ih h

/-- All line feeds of a source text are in its gaps. -/
theorem count_newline_eq_sum_gaps (source : Text) :
    source.count '\n' = ((gaps source).map (List.count '\n')).sum := by
  have hl : ((literals source).map (List.count '\n')).sum = 0 := by
    rw [literals_eq_map_quote, List.map_map]
    refine List.sum_eq_zero_iff_forall_eq_nat.mpr fun n hn => ?_
    obtain ⟨body, hb, rfl⟩ := List.mem_map.mp hn
    have hm := (body_of_mem_bodies hb).newline_notMem
    simp [quote, List.count_eq_zero.mpr hm]
  have hw := Piece.apply_weave (List.count '\n') (literals source)
    (fun _ _ _ _ => by simp [Nat.add_assoc]) (gaps source) (length_gaps source)
  rw [weave_gaps_literals, hl] at hw
  exact hw

theorem gaps_map_decodedPiece (policy : Escape.Policy) (ps : List (Piece Text)) :
    Piece.gaps (ps.map (decodedPiece policy)) = Piece.gaps ps := by
  induction ps with
  | nil => rfl
  | cons p ps ih => cases p <;> simp [decodedPiece, Piece.gaps, ih]

theorem takens_map_decodedPiece (policy : Escape.Policy) (ps : List (Piece Text)) :
    Piece.takens (ps.map (decodedPiece policy)) = (Piece.values ps).map (requote policy) := by
  induction ps with
  | nil => rfl
  | cons p ps ih => cases p <;> simp [decodedPiece, Piece.takens, Piece.values, ih]

/-- **Structure of the decoded text**: the gaps between its literals are those
of the source text, and in the place of each literal of the source text stands
one literal, its body decoded.  No line feed is added or lost. -/
theorem gaps_literals_decodeAll (policy : Escape.Policy) (source : Text) :
    gaps (decodeAll policy source) = gaps source ∧
      literals (decodeAll policy source) = (bodies source).map (requote policy) ∧
      (decodeAll policy source).count '\n' = source.count '\n' := by
  have hg : gaps (decodeAll policy source) = gaps source := by
    rw [gaps, pieces_decodeAll, gaps_map_decodedPiece, gaps]
  have hl : literals (decodeAll policy source) = (bodies source).map (requote policy) := by
    rw [literals, pieces_decodeAll, takens_map_decodedPiece, bodies]
  refine ⟨hg, hl, ?_⟩
  rw [count_newline_eq_sum_gaps, hg, ← count_newline_eq_sum_gaps]

end LuaReveal.Literal
