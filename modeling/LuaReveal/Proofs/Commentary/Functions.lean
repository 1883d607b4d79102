import LuaReveal.Proofs.Commentary.Additive
import Mathlib.Data.List.Forall2

/-!
# LuaReveal.Proofs.Commentary.Functions

The functions of a commented text are those of the source text, whatever its lines are.
Joined lines declare what the lines do (`all_joinLines`), and neither the header nor a
comment declares anything.  So a line of the source text (`Place`) keeps its signatures,
and where it stands in the commented text is told by what is above it (`Place.above`):
last of all the comments on its functions (`functionComments_suffix_above`).
-/

namespace LuaReveal.Commentary

open Text (IsLine dropBlanks isBlank joinLines lines takeBlanks withoutReturn)
open Signature (all located names)
open Outcome (namesAndRoles)

/-! ## The lines of a commented text -/

/-- No line of a commented text was joined from more than one. -/
theorem newline_notMem_of_mem_commentedLines (table? : Option Text) (source : Text) :
    ∀ l ∈ commentedLines table? source, '\n' ∉ l := by
  intro l hl
  rw [commentedLines, List.mem_append, List.mem_append, List.mem_singleton] at hl
  rcases hl with (hl | rfl) | hl
  · exact (isLine_and_names_of_mem_header l hl).1.1
  · simp
  · obtain ⟨line, hline, hl⟩ := List.mem_flatMap.mp hl
    have hn : '\n' ∉ line := Text.newline_notMem_of_mem_lines hline
    rcases mem_commented_iff.mp hl with ⟨c, hc, rfl⟩ | rfl
    · have hr : Remark c := remark_of_mem_comments hc
      have hb : '\n' ∉ takeBlanks line := fun h => hn ((List.takeWhile_sublist _).mem h)
      simpa using ⟨hb, hr.isLine.1⟩
    · exact hn

/-- A carriage return at the end of a line is in no signature. -/
theorem names_withoutReturn (l : Text) : names (withoutReturn l) = names l := by
  rcases Text.withoutReturn_eq_or l with h | h
  · rw [h]
  · rw [← congrArg names h, Signature.names_append_of_notMem (by decide)]

/-- Joined lines declare what the lines do. -/
theorem all_joinLines {ls : List Text} (h : ∀ l ∈ ls, '\n' ∉ l) :
    all (joinLines ls) = located 1 ls := by
  rcases List.eq_nil_or_concat ls with rfl | ⟨ms, l, rfl⟩
  · rfl
  · rw [List.concat_eq_append] at h ⊢
    have hl : ∀ n, located n (lines l) = located n [l] := by
      intro n
      by_cases he : l = []
      · rw [he]
        rfl
      · rw [Text.lines_of_newline_notMem (h l (by simp)) he]
    rw [Signature.all_eq_located,
      Text.lines_joinLines_append (fun m hm => h m (List.mem_append_left _ hm)) (by simp),
      Signature.located_append, Signature.located_map names_withoutReturn, List.length_map]
    exact (congrArg (located 1 ms ++ ·) (hl _)).trans (Signature.located_append 1 ms [l]).symm

/-- A line with its comments declares what the line does, at the number of the line. -/
theorem located_commented (table? : Option Text) (line : Text) (number : Nat) :
    located number (commented table? line) =
      located (number + (comments table? line).length) [line] := by
  have hc : ∀ l ∈ (comments table? line).map (takeBlanks line ++ ·), names l = [] := by
    intro l hl
    obtain ⟨c, hc, rfl⟩ := List.mem_map.mp hl
    exact (remark_of_mem_comments hc).names_append fun _ => Text.isBlank_of_mem_takeBlanks
  rw [commented, Signature.located_append, Signature.located_of_names_eq_nil hc, List.length_map]
  rfl

/-! ## Places -/

/-- A line of a source text between the lines around it. -/
structure Place (source : Text) where
  before : List Text
  line : Text
  after : List Text
  lines_eq : lines source = before ++ line :: after

namespace Place

variable {source : Text} (p : Place source) (table? : Option Text)

/-- The number of the line, counted from one. -/
def number : Nat :=
  p.before.length + 1

/-- What stands above the line in the commented text: the header and an empty line, the
lines before it with their comments, and the comments on it. -/
def above : List Text :=
  header ++ [] :: (p.before.flatMap (commented table?) ++
    (comments table? p.line).map (takeBlanks p.line ++ ·))

/-- What stands below it: the lines after it with their comments. -/
def below : List Text :=
  p.after.flatMap (commented table?)

/-- The number of the line in the commented text. -/
def commentedNumber : Nat :=
  (p.above table?).length + 1

theorem commentedLines_eq :
    commentedLines table? source = p.above table? ++ p.line :: p.below table? := by
  simp [commentedLines, p.lines_eq, above, below, commented]

/-- The line stands between what is above and below it, with a carriage return at its end
or without. -/
theorem exists_lines_annotate (h : p.line ≠ []) :
    ∃ line below, lines (annotate table? source) =
        (p.above table?).map withoutReturn ++ line :: below ∧
      (line = p.line ∨ line ++ ['\r'] = p.line) := by
  have hn := newline_notMem_of_mem_commentedLines table? source
  rw [p.commentedLines_eq table?] at hn
  have hl : '\n' ∉ p.line := hn p.line (by simp)
  rw [annotate, p.commentedLines_eq table?,
    Text.lines_joinLines_append (fun l hl => hn l (List.mem_append_left _ hl)) (by simp)]
  cases hb : p.below table? with
  | nil => exact ⟨p.line, [], by rw [Text.joinLines_singleton, Text.lines_of_newline_notMem hl h],
      .inl rfl⟩
  | cons l ls =>
      rw [Text.joinLines_cons_cons, Text.lines_append_newline_of_notMem hl]
      exact ⟨_, _, rfl, Text.withoutReturn_eq_or p.line⟩

/-- The functions of the line are told of directly above it. -/
theorem functionComments_suffix_above :
    (names p.line).map (fun name => takeBlanks p.line ++ functionComment name) <:+
      (p.above table?).map withoutReturn := by
  have hd : names (dropBlanks p.line) = names p.line := by
    rw [← Signature.names_append_of_blanks (fun _ => Text.isBlank_of_mem_takeBlanks)
      (dropBlanks p.line), Text.takeBlanks_append_dropBlanks]
  have hb : '\n' ∉ takeBlanks p.line := by
    have hl : p.line ∈ lines source := by simp [p.lines_eq]
    exact fun h => Text.newline_notMem_of_mem_lines hl ((List.takeWhile_sublist _).mem h)
  have hr : ((names p.line).map fun name => takeBlanks p.line ++ functionComment name).map
      withoutReturn = (names p.line).map fun name => takeBlanks p.line ++ functionComment name := by
    rw [List.map_map]
    refine List.map_congr_left fun name hn => ?_
    have hf : Remark (functionComment name) :=
      remark_functionComment (Signature.isBlank_of_mem_names hn)
    exact (hf.isLine.append hf.ne_nil hb).withoutReturn_eq
  rw [← hr]
  refine List.IsSuffix.map withoutReturn ?_
  refine ⟨header ++ [] :: (p.before.flatMap (commented table?) ++
    (((Landmark.find? table? (dropBlanks p.line)).map Landmark.comment).toList.map
      (takeBlanks p.line ++ ·))), ?_⟩
  simp [above, comments, hd]

end Place

/-! ## Functions -/

/-- `f` is in the commented text what `g` is in the source text: a function of the name of
`g`, on the line of `g`. -/
def Carried (table? : Option Text) (source : Text) (f g : Signature) : Prop :=
  f.name = g.name ∧ ∃ p : Place source,
    g.name ∈ names p.line ∧ g.line = p.number ∧ f.line = p.commentedNumber table?

section Annotated

variable (table? : Option Text) (source : Text)

/-- The functions of lines are carried over to where the lines stand behind what is above
them.  The induction takes lines from the front, so it is over any lines before them. -/
theorem forall₂_carried (before ls : List Text) (hs : lines source = before ++ ls) :
    List.Forall₂ (Carried table? source)
      (located (header.length + 1 + (before.flatMap (commented table?)).length + 1)
        (ls.flatMap (commented table?)))
      (located (before.length + 1) ls) := by
  induction ls generalizing before with
  | nil => exact .nil
  | cons line ls ih =>
      let p : Place source := ⟨before, line, ls, hs⟩
      have hline : List.Forall₂ (Carried table? source)
          (located (p.commentedNumber table?) [line]) (located p.number [line]) := by
        simp only [located, List.append_nil, List.forall₂_map_left_iff,
          List.forall₂_map_right_iff, List.forall₂_same]
        exact fun name hn => ⟨rfl, p, hn, rfl, rfl⟩
      have hrest := ih (before ++ [line]) (by simp [hs])
      have hn : header.length + 1 + (before.flatMap (commented table?)).length + 1 +
          (comments table? line).length = p.commentedNumber table? := by
        simp [p, Place.commentedNumber, Place.above]
        omega
      have hm : header.length + 1 + (before.flatMap (commented table?)).length + 1 +
          (commented table? line).length =
            header.length + 1 + ((before ++ [line]).flatMap (commented table?)).length + 1 := by
        simp
        omega
      have hc : located (before.length + 1) (line :: ls) =
          located p.number [line] ++ located ((before ++ [line]).length + 1) ls := by
        rw [List.length_append]
        exact Signature.located_append p.number [line] ls
      rw [List.flatMap_cons, Signature.located_append, located_commented, hn, hm, hc]
      exact List.rel_append hline hrest

/-- The functions of a commented text are those of the source text, in order. -/
theorem forall₂_all_annotate :
    List.Forall₂ (Carried table? source) (all (annotate table? source)) (all source) := by
  have hh : ∀ l ∈ header ++ [[]], names l = [] := by
    intro l hl
    rcases List.mem_append.mp hl with hl | hl
    · exact (isLine_and_names_of_mem_header l hl).2
    · rw [List.mem_singleton.mp hl]
      rfl
  have hn : 1 + (header ++ [[]]).length = header.length + 1 + 1 := by
    rw [List.length_append, List.length_singleton]
    omega
  have ha : all (annotate table? source) =
      located (header.length + 1 + 1) ((lines source).flatMap (commented table?)) := by
    rw [annotate, all_joinLines (newline_notMem_of_mem_commentedLines table? source),
      commentedLines, Signature.located_append, Signature.located_of_names_eq_nil hh, hn,
      List.nil_append]
  have hc := forall₂_carried table? source [] (lines source) rfl
  rw [List.flatMap_nil, List.length_nil, Nat.add_zero] at hc
  rwa [ha, Signature.all_eq_located]

end Annotated

/-- **Functions of a commented text**: the functions of the commented text are those of
the source text, in order.  Each is found on the line that it is on in the source text,
behind the header and all comments above it, and the comments on the functions of that
line are directly above it. -/
theorem all_annotate (table? : Option Text) (source : Text) :
    let code := annotate table? source
    namesAndRoles (all code) = namesAndRoles (all source) ∧
      List.Forall₂ (fun f g => ∃ p : Place source,
          g.name ∈ names p.line ∧ g.line = p.number ∧ f.line = p.commentedNumber table? ∧
          (∃ line below, lines code = (p.above table?).map withoutReturn ++ line :: below ∧
            (line = p.line ∨ line ++ ['\r'] = p.line)) ∧
          (names p.line).map (fun name => takeBlanks p.line ++ functionComment name) <:+
            (p.above table?).map withoutReturn)
        (all code) (all source) := by
  intro code
  have h := forall₂_all_annotate table? source
  have hm : List.Forall₂ Eq ((all code).map Signature.name) ((all source).map Signature.name) := by
    rw [List.forall₂_map_left_iff, List.forall₂_map_right_iff]
    exact h.imp fun _ _ hc => hc.1
  rw [List.forall₂_eq_eq_eq] at hm
  refine ⟨?_, h.imp ?_⟩
  · rw [Outcome.namesAndRoles_eq, Outcome.namesAndRoles_eq, hm]
  · rintro f g ⟨_, p, hn, hg, hf⟩
    have hp : p.line ≠ [] := fun he => by
      rw [he] at hn
      exact List.not_mem_nil hn
    exact ⟨p, hn, hg, hf, p.exists_lines_annotate table? hp, p.functionComments_suffix_above table?⟩

/-- Functions on one line come to stand below as many comments. -/
example :
    let source := "function f(x) function draw() end end\r\nfunction f() end\r".toList
    all source = [⟨"f".toList, 1⟩, ⟨"draw".toList, 1⟩, ⟨"f".toList, 2⟩] ∧
      all (annotate none source) = [⟨"f".toList, 17⟩, ⟨"draw".toList, 17⟩, ⟨"f".toList, 19⟩] := by
  decide +kernel

end LuaReveal.Commentary
