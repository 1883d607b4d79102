import LuaReveal.Proofs.Layout.CodeLines
import LuaReveal.Proofs.Layout.Placing

/-!
# LuaReveal.Proofs.Layout.Blocks

Source texts whose lines are nested in blocks, and their indentation.  A line opens a
block, divides or closes one, or is plain (`LineKind`).  Items are plain lines and
blocks of items (`Item`), and each line of them has a depth, the number of blocks
around it (`Item.placed`).  Indenting such a text anew puts every line at its depth
(`reindent_placed`).

What carries the induction over the items: placing the lines of an item in a buffer
leaves the level of the buffer as it was, since each line that takes a level away
stands in a block whose opener has added it (`placeAll_item`).
-/

namespace LuaReveal

namespace Layout

/-! ## Kinds of lines -/

/-- What a line does to the blocks that it stands in. -/
inductive LineKind where
  | opener
  | middle
  | closer
  | plain
  deriving DecidableEq

/-- The kind of a line, by whether it closes a block, whether some word of it opens
one, and whether some word of it ends one. -/
def LineKind.of (line : Text) : LineKind :=
  let opens := hasWordOf Keyword.openers line
  let ends := hasWordOf Keyword.enders line
  if !closes line && opens && !ends then .opener
  else if closes line && opens && !ends then .middle
  else if closes line && (!opens || ends) then .closer
  else .plain

/-- What a line of the kind takes off the level. -/
def LineKind.closing : LineKind → Nat
  | opener | plain => 0
  | middle | closer => 1

/-- What a line of the kind adds to the level. -/
def LineKind.opening : LineKind → Nat
  | closer | plain => 0
  | opener | middle => 1

theorem closing_opening_eq (line : Text) :
    closing line = (LineKind.of line).closing ∧ opening line = (LineKind.of line).opening := by
  unfold closing opening LineKind.of Layout.opens
  cases closes line <;> cases hasWordOf Keyword.openers line <;>
    cases hasWordOf Keyword.enders line <;> exact ⟨rfl, rfl⟩

/-- A line of code of a kind. -/
structure CodeLine (kind : LineKind) where
  text : Text
  isCode : IsCode text
  kind_eq : LineKind.of text = kind

section Place

variable (b : LineBuffer)

/-- What a placed line does to the buffer depends on its kind. -/
theorem CodeLine.place_eq {kind : LineKind} (line : CodeLine kind) :
    place b line.text =
      (b.append [(b.level - kind.closing, line.text)]).atLevel
        (b.level - kind.closing + kind.opening) := by
  obtain ⟨hc, ho⟩ := closing_opening_eq line.text
  rw [Layout.place_eq, hc, ho, line.kind_eq]

theorem place_plain (line : CodeLine .plain) :
    place b line.text = b.append [(b.level, line.text)] :=
  line.place_eq b

theorem place_opener (line : CodeLine .opener) :
    place b line.text = (b.append [(b.level, line.text)]).indent :=
  line.place_eq b

/-- A line that divides a block stands at the level of its opener. -/
theorem place_middle (line : CodeLine .middle) :
    place b.indent line.text = (b.append [(b.level, line.text)]).indent :=
  line.place_eq b.indent

/-- So does the line that closes it. -/
theorem place_closer (line : CodeLine .closer) :
    place b.indent line.text = b.append [(b.level, line.text)] :=
  line.place_eq b.indent

end Place

/-! ## Items -/

/-- A plain line, or a block: an opener and items, any number of lines that divide the
block with the items behind them, and a closer. -/
inductive Item where
  | plain (line : CodeLine .plain)
  | block (opener : CodeLine .opener) (body : List Item)
      (groups : List (CodeLine .middle × List Item)) (closer : CodeLine .closer)

mutual
/-- The lines of an item that stands in `depth` blocks, each with the number of blocks
around it.  The lines that make a block are not in it. -/
def Item.placed (depth : Nat) : Item → List (Nat × Text)
  | .plain line => [(depth, line.text)]
  | .block opener body groups closer =>
    (depth, opener.text) :: (placedItems (depth + 1) body ++
      (placedGroups depth groups ++ [(depth, closer.text)]))

/-- The lines of items in a row. -/
def placedItems (depth : Nat) : List Item → List (Nat × Text)
  | [] => []
  | item :: items => item.placed depth ++ placedItems depth items

/-- The lines of the parts of a block behind its first. -/
def placedGroups (depth : Nat) : List (CodeLine .middle × List Item) → List (Nat × Text)
  | [] => []
  | group :: groups => placedGroup depth group ++ placedGroups depth groups

/-- The lines of one such part. -/
def placedGroup (depth : Nat) : CodeLine .middle × List Item → List (Nat × Text)
  | (line, items) => (depth, line.text) :: placedItems (depth + 1) items
end

mutual
theorem isCode_of_mem_placed (depth : Nat) :
    (item : Item) → ∀ p ∈ item.placed depth, IsCode p.2
  | .plain line => by simpa [Item.placed] using line.isCode
  | .block opener body groups closer => by
      have hb := isCode_of_mem_placedItems (depth + 1) body
      have hg := isCode_of_mem_placedGroups depth groups
      simp only [Item.placed, List.forall_mem_cons, List.forall_mem_append]
      exact ⟨opener.isCode, hb, hg, closer.isCode, by simp⟩

theorem isCode_of_mem_placedItems (depth : Nat) :
    (items : List Item) → ∀ p ∈ placedItems depth items, IsCode p.2
  | [] => by simp [placedItems]
  | item :: items => by
      have hi := isCode_of_mem_placed depth item
      have hs := isCode_of_mem_placedItems depth items
      simp only [placedItems, List.forall_mem_append]
      exact ⟨hi, hs⟩

theorem isCode_of_mem_placedGroups (depth : Nat) :
    (groups : List (CodeLine .middle × List Item)) → ∀ p ∈ placedGroups depth groups, IsCode p.2
  | [] => by simp [placedGroups]
  | (line, items) :: groups => by
      have hs := isCode_of_mem_placedItems (depth + 1) items
      have hg := isCode_of_mem_placedGroups depth groups
      simp only [placedGroups, placedGroup, List.forall_mem_append, List.forall_mem_cons]
      exact ⟨⟨line.isCode, hs⟩, hg⟩
end

/-! ## Placing items -/

/-- The lines of placed items. -/
def lineTexts (ps : List (Nat × Text)) : List Text :=
  ps.map Prod.snd

/-- The lines are placed in a buffer one by one. -/
def placeAll (b : LineBuffer) (ps : List (Nat × Text)) : LineBuffer :=
  (lineTexts ps).foldl place b

theorem placeAll_append (b : LineBuffer) (ps qs : List (Nat × Text)) :
    placeAll b (ps ++ qs) = placeAll (placeAll b ps) qs := by
  simp [placeAll, lineTexts]

theorem placeAll_cons (b : LineBuffer) (p : Nat × Text) (ps : List (Nat × Text)) :
    placeAll b (p :: ps) = placeAll (place b p.2) ps := rfl

theorem placeAll_nil (b : LineBuffer) : placeAll b [] = b := rfl

mutual
/-- The lines of an item come to stand at their depths, and the level of the buffer is
as before. -/
theorem placeAll_item (b : LineBuffer) :
    (item : Item) → placeAll b (item.placed b.level) = b.append (item.placed b.level)
  | .plain line => by simp [Item.placed, placeAll_cons, placeAll_nil, place_plain]
  | .block opener body groups closer => by
      let b₁ := b.append [(b.level, opener.text)]
      have hb : placeAll b₁.indent (placedItems (b.level + 1) body) =
          (b₁.append (placedItems (b.level + 1) body)).indent :=
        placeAll_items b₁.indent body
      let b₂ := b₁.append (placedItems (b.level + 1) body)
      have hg : placeAll b₂.indent (placedGroups b.level groups) =
          (b₂.append (placedGroups b.level groups)).indent :=
        placeAll_groups b₂ groups
      let b₃ := b₂.append (placedGroups b.level groups)
      have hc : place b₃.indent closer.text = b₃.append [(b.level, closer.text)] :=
        place_closer b₃ closer
      rw [Item.placed, placeAll_cons, place_opener, placeAll_append, placeAll_append, hb, hg,
        placeAll_cons, placeAll_nil, hc]
      simp [b₁, b₂, b₃]

/-- So do the lines of items in a row. -/
theorem placeAll_items (b : LineBuffer) :
    (items : List Item) → placeAll b (placedItems b.level items) =
      b.append (placedItems b.level items)
  | [] => by simp [placedItems, placeAll_nil]
  | item :: items => by
      have hs := placeAll_items (b.append (item.placed b.level)) items
      rw [LineBuffer.level_append] at hs
      rw [placedItems, placeAll_append, placeAll_item b item, hs, LineBuffer.append_append]

/-- Within a block the lines of its parts come to stand at their depths. -/
theorem placeAll_groups (b : LineBuffer) :
    (groups : List (CodeLine .middle × List Item)) →
      placeAll b.indent (placedGroups b.level groups) =
        (b.append (placedGroups b.level groups)).indent
  | [] => by simp [placedGroups, placeAll_nil]
  | (line, items) :: groups => by
      let b₁ := b.append [(b.level, line.text)]
      have hs : placeAll b₁.indent (placedItems (b.level + 1) items) =
          (b₁.append (placedItems (b.level + 1) items)).indent :=
        placeAll_items b₁.indent items
      let b₂ := b₁.append (placedItems (b.level + 1) items)
      have hg : placeAll b₂.indent (placedGroups b.level groups) =
          (b₂.append (placedGroups b.level groups)).indent :=
        placeAll_groups b₂ groups
      rw [placedGroups, placedGroup, placeAll_append, placeAll_cons, place_middle, hs, hg]
      simp [b₁, b₂]
end

/-- **Nested blocks**: a text that lays out the lines of items, with any white space
around them and any lines of blanks between them, is indented anew by putting each
line at the number of blocks around it. -/
theorem reindent_placed (items : List Item) {source : Text}
    (h : LaidOut (lineTexts (placedItems 0 items)) source) (unit : Text) :
    reindent unit source =
      Text.joinLines ((placedItems 0 items).map fun p => Text.repeated p.1 unit ++ p.2) := by
  have hc : ∀ l ∈ lineTexts (placedItems 0 items), IsCode l := by
    simpa [lineTexts] using fun l d hl => isCode_of_mem_placedItems 0 items (d, l) hl
  have hp := placeAll_items (.empty unit) items
  rw [reindent, codeLines_of_laidOut h hc]
  exact (congrArg LineBuffer.text hp).trans (LineBuffer.text_append_empty _ unit)

/-- A loop, a line with two blocks of its own in it, and a branch of three parts whose
closer has a block of its own. -/
def nestedItems : List Item :=
  [.block ⟨"while a do".toList, by decide +kernel, by decide +kernel⟩
    [.plain ⟨"for i = 1, 3 do if i then f(i) end end".toList, by decide +kernel,
        by decide +kernel⟩,
      .block ⟨"if b then".toList, by decide +kernel, by decide +kernel⟩ []
        [(⟨"elseif c then".toList, by decide +kernel, by decide +kernel⟩,
            [.plain ⟨"f()".toList, by decide +kernel, by decide +kernel⟩]),
          (⟨"else".toList, by decide +kernel, by decide +kernel⟩,
            [.block ⟨"repeat".toList, by decide +kernel, by decide +kernel⟩ [] []
              ⟨"until f(function() end)".toList, by decide +kernel, by decide +kernel⟩])]
        ⟨"end".toList, by decide +kernel, by decide +kernel⟩]
    [] ⟨"end)".toList, by decide +kernel, by decide +kernel⟩]

/-- They are laid out with blanks at the ends of their lines, a carriage return and
lines of blanks. -/
theorem reindent_placed_nested :
    let source := Text.joinLines
      ["".toList,
        "\twhile a do\r".toList,
        " for i = 1, 3 do if i then f(i) end end  ".toList,
        "if b then".toList,
        "   ".toList,
        "elseif c then".toList,
        "f()".toList,
        "    else".toList,
        "repeat".toList,
        "      until f(function() end)".toList,
        "\tend".toList,
        "end)  ".toList]
    LaidOut (lineTexts (placedItems 0 nestedItems)) source ∧
      reindent ['\t'] source = Text.joinLines
        ["while a do".toList,
          "\tfor i = 1, 3 do if i then f(i) end end".toList,
          "\tif b then".toList,
          "\telseif c then".toList,
          "\t\tf()".toList,
          "\telse".toList,
          "\t\trepeat".toList,
          "\t\tuntil f(function() end)".toList,
          "\tend".toList,
          "end)".toList] := by
  intro source
  have h : LaidOut (lineTexts (placedItems 0 nestedItems)) source :=
    (codeLines_eq_iff.mp (by decide +kernel)).2
  have he := reindent_placed nestedItems h ['\t']
  exact ⟨h, he.trans (by decide +kernel)⟩

end Layout

end LuaReveal
