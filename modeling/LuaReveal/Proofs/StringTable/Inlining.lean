import LuaReveal.Proofs.StringTable.Opening
import Mathlib.Data.List.Basic

/-!
# LuaReveal.Proofs.StringTable.Inlining

What inlining does to the references of a source text.

A reference by itself becomes the literal of the entry that its digits spell the
position of, and it stays if they spell none (`inline_subscript`).  So the keys that
the entries are given are the references to them.

In a longer text every reference is replaced or kept, and each literal brings the
references within it (`references_inline`): no reference has a quote, so none is made
where a literal meets the text around it.  Unless a literal holds a reference to an
entry, a second inlining changes nothing (`inline_inline`).
-/

namespace LuaReveal.StringTable

open Text (Found Piece IsIdentifier Spells isWordAt isAsciiDigit lastAfter)

/-! ## Tables of source texts -/

/-- At least one body is read. -/
theorem ne_nil_of_readBodies? {s : Text} {bodies : List Text} (h : readBodies? s = some bodies) :
    bodies ≠ [] := by
  fun_induction readBodies? s with
  | case1 => contradiction
  | case2 =>
      obtain rfl := Option.some.inj h
      simp
  | case3 =>
      obtain ⟨more, _, rfl⟩ := Option.map_eq_some_iff.mp h
      simp
  | case4 => contradiction

/-- A declaration has an identifier for its name and at least one body. -/
theorem Declaration.isIdentifier_and_ne_nil {prev : Option Char} {s : Text} {d : Declaration}
    (h : Declaration.find? prev s = some d) : IsIdentifier d.name ∧ d.bodies ≠ [] := by
  simp only [Declaration.find?, Option.bind_eq_bind, Option.bind_eq_some_iff] at h
  obtain ⟨_, _, _, _, ⟨name, rest⟩, hn, _, _, _, _, bodies, hb, hd⟩ := h
  obtain rfl := Option.some.inj hd
  exact ⟨(Text.readIdentifier?_eq_some_iff.mp hn).1, ne_nil_of_readBodies? hb⟩

section Source

variable {policy : Escape.Policy} {source name : Text}

theorem isIdentifier_of_name (h : (ofSource policy source).name = some name) :
    IsIdentifier name := by
  cases ofSource_cases policy source with
  | inl he =>
      rw [he] at h
      contradiction
  | inr hd =>
      obtain ⟨d, _, _, _, hf, he⟩ := hd
      rw [he] at h
      exact Option.some.inj h ▸ (Declaration.isIdentifier_and_ne_nil hf).1

/-- A table without a name is one without entries. -/
theorem name_eq_none_iff :
    (ofSource policy source).name = none ↔ (ofSource policy source).entries = [] := by
  cases ofSource_cases policy source with
  | inl he => simp [he, empty]
  | inr hd =>
      obtain ⟨d, _, _, _, hf, he⟩ := hd
      simp [he, ofBodies, (Declaration.isIdentifier_and_ne_nil hf).2]

/-- An entry of a named table is found at a position, and its key is the name with
that position. -/
theorem exists_position_of_mem {e : Entry} (he : e ∈ (ofSource policy source).entries) :
    ∃ name k, (ofSource policy source).name = some name ∧
      (ofSource policy source).get? k = some e ∧
      e.key = name ++ '[' :: Text.ofNat k ++ [']'] := by
  cases ofSource_cases policy source with
  | inl hn =>
      rw [hn] at he
      exact absurd he List.not_mem_nil
  | inr hd =>
      obtain ⟨d, _, _, _, _, ht⟩ := hd
      rw [ht] at he ⊢
      obtain ⟨i, hi⟩ := List.getElem?_of_mem he
      have hk : e.key = d.name ++ '[' :: Text.ofNat (i + 1) ++ [']'] := by
        obtain ⟨body, _, rfl⟩ := by simpa [ofBodies] using hi
        rfl
      exact ⟨d.name, i + 1, rfl, hi, hk⟩

/-- The literal of an entry is a text between quotes. -/
theorem exists_literal_eq_quote {e : Entry} (he : e ∈ (ofSource policy source).entries) :
    ∃ body, e.literal = Literal.quote body :=
  ⟨_, (raw_literal_of_mem he).2⟩

end Source

/-! ## Digits and positions -/

section Position

variable {t : StringTable} {digits : Text} {k : Nat}

/-- The digits of a reference spell the position of an entry. -/
def PointsInto (t : StringTable) (digits : Text) : Prop :=
  ∃ k, Spells digits k ∧ 1 ≤ k ∧ k ≤ t.size

theorem resolve?_of_spells (h : Spells digits k) : t.resolve? digits = t.get? k := by
  rw [resolve?, Text.readNat?_eq_some_iff.mpr h, Option.bind_some]

/-- There is no entry at zero, and none above the size of the table. -/
theorem get?_eq_none (h : ¬ (1 ≤ k ∧ k ≤ t.size)) : t.get? k = none := by
  simpa using mt isSome_get?_iff.mp h

/-- A bound on the numbers that are read, such as that of a machine word, makes no
difference to a table of fewer entries. -/
theorem resolve?_eq_of_size_lt {bound : Nat} (h : t.size < bound) (digits : Text) :
    t.resolve? digits = ((Text.readNat? digits).filter (· < bound)).bind t.get? := by
  rw [resolve?]
  cases Text.readNat? digits with
  | none => rfl
  | some k =>
      by_cases hk : k < bound
      · simp [Option.filter, hk]
      · have hn : t.get? k = none := get?_eq_none (by omega)
        simp [Option.filter, hk, hn]

theorem isSome_resolve?_iff : (t.resolve? digits).isSome ↔ t.PointsInto digits := by
  constructor
  · intro h
    cases hr : Text.readNat? digits with
    | none => simp [resolve?, hr] at h
    | some k =>
        have hs : Spells digits k := Text.readNat?_eq_some_iff.mp hr
        rw [resolve?_of_spells hs, isSome_get?_iff] at h
        exact ⟨k, hs, h⟩
  · intro ⟨k, hs, hk⟩
    rw [resolve?_of_spells hs, isSome_get?_iff]
    exact hk

instance (t : StringTable) (digits : Text) : Decidable (t.PointsInto digits) :=
  decidable_of_iff _ isSome_resolve?_iff

theorem resolve?_eq_none_iff : t.resolve? digits = none ↔ ¬ t.PointsInto digits := by
  simp [← isSome_resolve?_iff]

/-- Digits point at no entry if they are not all among `0` to `9`, or if they spell zero
or a number above the size of the table. -/
theorem not_pointsInto_iff (hn : digits ≠ []) :
    ¬ t.PointsInto digits ↔
      (∃ c ∈ digits, isAsciiDigit c = false) ∨ ∃ k, Spells digits k ∧ (k = 0 ∨ t.size < k) := by
  by_cases ha : ∀ c ∈ digits, isAsciiDigit c = true
  · obtain ⟨k, hs⟩ : ∃ k, Spells digits k := ⟨_, hn, ha, rfl⟩
    constructor
    · intro h
      have hk : ¬ (1 ≤ k ∧ k ≤ t.size) := fun hk => h ⟨k, hs, hk⟩
      exact .inr ⟨k, hs, by omega⟩
    · intro h ⟨k, hk, hr⟩
      cases h with
      | inl hc =>
          obtain ⟨c, hm, hc⟩ := hc
          simp [ha c hm] at hc
      | inr hk' =>
          obtain ⟨k', hk', hr'⟩ := hk'
          have : k = k' := hk.ofDigits_eq.symm.trans hk'.ofDigits_eq
          omega
  · constructor
    · intro _
      exact .inl (by simpa using ha)
    · intro _ ⟨k, hk, _⟩
      exact ha hk.isAsciiDigit_of_mem

end Position

/-! ## References -/

/-- The digits of the references to the table that stand in a text, at whatever
places. -/
def references (t : StringTable) (s : Text) : List Text :=
  match t.name with
  | none => []
  | some name => (Text.occurrences (Reference.find? name) s).map Found.value

section References

variable {t : StringTable} {name s : Text}

/-- A scan finds all references. -/
theorem references_eq (ht : t.name = some name) (hn : IsIdentifier name) (s : Text) :
    t.references s = ((reference name).scan s).filterMap Piece.value? := by
  rw [references, ht]
  exact ((Reference.isDisjoint_reference hn).values_scanAfter none s).symm

/-- A reference has digits. -/
theorem ne_nil_of_mem_references {digits : Text} (h : digits ∈ t.references s) :
    digits ≠ [] := by
  cases ht : t.name with
  | none => simp [references, ht] at h
  | some name =>
      rw [references, ht] at h
      obtain ⟨f, hf, hd⟩ := List.mem_map.mp h
      obtain ⟨_, after, _, _, hf⟩ := Text.mem_occurrences_iff.mp hf
      obtain ⟨_, sub, hv, _⟩ := Reference.exists_subscript hf
      rw [← hd, hv]
      exact sub.digits_ne_nil

theorem inline_eq (ht : t.name = some name) (s : Text) :
    t.inline s =
      ⟨((reference name).scan s).flatMap t.inlinePiece,
        ((reference name).scan s).countP fun p => (t.target? p).isSome⟩ := by
  rw [StringTable.inline, ht]

/-- Where no reference points at an entry, inlining changes nothing. -/
theorem inline_eq_self (hn : ∀ name, t.name = some name → IsIdentifier name)
    (h : ∀ digits ∈ t.references s, ¬ t.PointsInto digits) : t.inline s = ⟨s, 0⟩ := by
  cases ht : t.name with
  | none => rw [StringTable.inline, ht]
  | some name =>
      have hp : ∀ p ∈ (reference name).scan s, t.target? p = none := by
        intro p hp
        cases hv : p.value? with
        | none => simp [target?, hv]
        | some digits =>
            have hd : digits ∈ t.references s := by
              rw [references_eq ht (hn name ht)]
              exact List.mem_filterMap.mpr ⟨p, hp, hv⟩
            simpa [target?, hv] using resolve?_eq_none_iff.mpr (h digits hd)
      have hc : ((reference name).scan s).flatMap t.inlinePiece =
          ((reference name).scan s).flatMap Piece.text :=
        List.flatMap_congr fun p hm => by rw [inlinePiece, hp p hm]
      have hz : ((reference name).scan s).countP (fun p => (t.target? p).isSome) = 0 :=
        List.countP_eq_zero.mpr fun p hm => by simp [hp p hm]
      rw [inline_eq ht, hc, hz, (reference name).flatMap_text_scan]

end References

/-! ## One reference -/

/-- A reference by itself is one piece. -/
theorem scan_subscript {name : Text} (hn : IsIdentifier name) (sub : Subscript) :
    (reference name).scan (name ++ sub.text) = [.found sub.digits (name ++ sub.text)] := by
  have hf : (reference name).find none (name ++ sub.text) =
      some ⟨sub.digits, name ++ sub.text, []⟩ := by
    have h : Reference.find? name none (name ++ (sub.text ++ [])) = _ :=
      Reference.find?_append hn rfl sub []
    rwa [List.append_nil] at h
  rw [Text.Recognizer.scan, (reference name).scanAfter_of_some hf, Text.Recognizer.scanAfter]

/-- A reference by itself becomes the literal of the entry that it points at, or
stays. -/
theorem inline_reference {t : StringTable} {name : Text} (ht : t.name = some name)
    (hn : IsIdentifier name) (sub : Subscript) :
    t.inline (name ++ sub.text) =
      match t.resolve? sub.digits with
      | some e => ⟨e.literal, 1⟩
      | none => ⟨name ++ sub.text, 0⟩ := by
  rw [inline_eq ht, scan_subscript hn]
  cases h : t.resolve? sub.digits with
  | none => simp [inlinePiece, target?, Piece.value?, Piece.text, h]
  | some e => simp [inlinePiece, target?, Piece.value?, h]

/-- The subscript of the key of an entry. -/
def keySubscript (k : Nat) : Subscript where
  beforeBracket := []
  afterBracket := []
  digits := Text.ofNat k
  afterDigits := []
  isBlank_of_mem_beforeBracket := Text.isBlank_of_mem_nil
  isBlank_of_mem_afterBracket := Text.isBlank_of_mem_nil
  digits_ne_nil := Text.ofNat_ne_nil k
  isDigit_of_mem_digits c hc :=
    Text.isDigit_of_isAsciiDigit ((Text.spells_ofNat k).isAsciiDigit_of_mem c hc)
  isBlank_of_mem_afterDigits := Text.isBlank_of_mem_nil

/-- **Addresses**: a reference to the table of a source text whose digits spell a
number, with any leading zeros and any blanks, becomes the literal of the entry at that
position, and it stays if there is none.  The keys of the entries are such references,
and a table has a name exactly if it has entries. -/
theorem inline_subscript (policy : Escape.Policy) (source : Text) :
    let t := ofSource policy source
    (∀ name (sub : Subscript) k, t.name = some name → Spells sub.digits k →
      (1 ≤ k ∧ k ≤ t.size →
        ∃ e, t.entries[k - 1]? = some e ∧ t.inline (name ++ sub.text) = ⟨e.literal, 1⟩) ∧
      (¬ (1 ≤ k ∧ k ≤ t.size) → t.inline (name ++ sub.text) = ⟨name ++ sub.text, 0⟩)) ∧
    (∀ e ∈ t.entries, t.inline e.key = ⟨e.literal, 1⟩) ∧
    (t.name = none ↔ t.entries = []) := by
  intro t
  refine ⟨?_, ?_, name_eq_none_iff⟩
  · intro name sub k ht hs
    have hi := inline_reference ht (isIdentifier_of_name ht) sub
    rw [resolve?_of_spells hs] at hi
    constructor
    · intro hk
      obtain ⟨e, he⟩ := Option.isSome_iff_exists.mp (isSome_get?_iff.mpr hk)
      obtain ⟨i, rfl⟩ := Nat.exists_eq_add_of_le' hk.1
      rw [he] at hi
      exact ⟨e, he, hi⟩
    · intro hk
      rwa [get?_eq_none hk] at hi
  · intro e he
    obtain ⟨name, k, ht, hk, hkey⟩ := exists_position_of_mem he
    have hi := inline_reference ht (isIdentifier_of_name ht) (keySubscript k)
    have hd : (keySubscript k).digits = Text.ofNat k := rfl
    have hx : name ++ (keySubscript k).text = e.key := by
      simp [hkey, keySubscript, Subscript.text]
    rw [hd, resolve?_of_spells (Text.spells_ofNat k), hk, hx] at hi
    exact hi

/-- A position with leading zeros between line ends, and a number of more than 64 bits. -/
theorem inline_subscript_zeros :
    let t := ofSource .filter "local J=\x7b\"a\",\"\\102\"\x7d".toList
    let sub := { keySubscript 2 with
      beforeBracket := ['\n']
      digits := "0002".toList
      isBlank_of_mem_beforeBracket := List.all_eq_true.mp (by decide)
      digits_ne_nil := by decide
      isDigit_of_mem_digits := List.all_eq_true.mp (by decide) : Subscript }
    let big := keySubscript (2 ^ 64 + 1)
    t.name = some ['J'] ∧ Spells sub.digits 2 ∧
      t.inline ('J' :: sub.text) = ⟨"\"B\"".toList, 1⟩ ∧
      t.inline ('J' :: big.text) = ⟨'J' :: big.text, 0⟩ := by
  intro t sub big
  have ht : t.name = some ['J'] := by decide +kernel
  have hs : Spells sub.digits 2 := ⟨by decide, List.all_eq_true.mp (by decide), by decide +kernel⟩
  have hz : t.size = 2 := by decide +kernel
  have h := inline_subscript .filter "local J=\x7b\"a\",\"\\102\"\x7d".toList
  obtain ⟨e, he, hi⟩ := (h.1 ['J'] sub 2 ht hs).1 ⟨by decide, by rw [hz]⟩
  have hl : e.literal = "\"B\"".toList := by
    have hb : (t.entries[1]?).map Entry.literal = some "\"B\"".toList := by decide +kernel
    have he' : t.entries[1]? = some e := he
    simpa [he'] using hb
  rw [hl] at hi
  exact ⟨ht, hs, hi, (h.1 ['J'] big _ ht (Text.spells_ofNat _)).2 (by rw [hz]; omega)⟩

/-! ## References after inlining -/

section Rescan

variable {t : StringTable} {name : Text}

/-- No reference holds a quote. -/
theorem quote_notMem_taken (hn : IsIdentifier name) {prev : Option Char} {s : Text}
    {f : Found Text} (h : (reference name).find prev s = some f) : '"' ∉ f.taken :=
  Reference.notMem_taken hn (by decide) (by decide) (by decide) (by decide) (by decide) h

theorem find_quote_eq_none (hn : IsIdentifier name) (prev : Option Char) (s : Text) :
    (reference name).find prev ('"' :: s) = none := by
  cases hf : (reference name).find prev ('"' :: s) with
  | none => rfl
  | some f =>
      obtain ⟨c, w, hw⟩ := List.exists_cons_of_ne_nil ((reference name).taken_ne_nil hf)
      have hs := (reference name).taken_append_rest hf
      rw [hw, List.cons_append] at hs
      have hq : '"' ∈ f.taken := by simp [hw, (List.cons.inj hs).1]
      exact absurd hq (quote_notMem_taken hn hf)

/-- A literal is scanned as it is by itself, and so is the text behind it. -/
theorem scanAfter_literal_append (hn : IsIdentifier name) (body : Text) (prev : Option Char)
    (s : Text) :
    (reference name).scanAfter prev (Literal.quote body ++ s) =
      (reference name).scan (Literal.quote body) ++ (reference name).scanAfter (some '"') s := by
  have hw : (reference name).EndsWithin prev (Literal.quote body) s :=
    .of_notMem (fun _ _ _ hf => quote_notMem_taken hn hf) prev ('"' :: body) s
  have hl : lastAfter prev (Literal.quote body) = some '"' := by
    simp [lastAfter, Literal.quote, List.getLast?_cons]
  have hp : (reference name).scanAfter prev (Literal.quote body) =
      (reference name).scan (Literal.quote body) := by
    rw [Text.Recognizer.scan, Literal.quote,
      (reference name).scanAfter_cons_of_none (find_quote_eq_none hn prev _),
      (reference name).scanAfter_cons_of_none (find_quote_eq_none hn none _)]
  rw [(Reference.isLocal_reference hn).scanAfter_append hw, hl, hp]

/-- Up to its first literal, an inlined text is the source text. -/
theorem prefix_flatMap_text (hl : ∀ e ∈ t.entries, ∃ body, e.literal = Literal.quote body)
    {ps : List (Piece Text)} {u : Text} (hu : '"' ∉ u) (h : u <+: ps.flatMap t.inlinePiece) :
    u <+: ps.flatMap Piece.text := by
  induction ps generalizing u with
  | nil => exact h
  | cons p ps ih =>
      rw [List.flatMap_cons] at h ⊢
      cases hp : t.target? p with
      | some e =>
          obtain ⟨body, hb⟩ := hl e (mem_entries_of_target? hp)
          simp only [inlinePiece, hp, hb] at h
          cases u with
          | nil => exact List.nil_prefix
          | cons c u => exact absurd (by simp [(List.cons_prefix_cons.mp h).1]) hu
      | none =>
          simp only [inlinePiece, hp] at h
          obtain ⟨w, hw⟩ := h
          cases List.append_eq_append_iff.mp hw with
          | inl hx =>
              -- The text ends within the piece.
              obtain ⟨x, hx, _⟩ := hx
              exact ⟨x ++ ps.flatMap Piece.text, by rw [hx, List.append_assoc]⟩
          | inr hx =>
              obtain ⟨x, hx, hr⟩ := hx
              have hx' : '"' ∉ x := fun hm => hu (hx ▸ List.mem_append_right _ hm)
              rw [hx]
              exact (List.prefix_append_right_inj p.text).mpr (ih hx' ⟨w, hr.symm⟩)

/-- No reference starts an inlined text if none starts the text that it comes from. -/
theorem find_flatMap_inlinePiece_eq_none (hn : IsIdentifier name)
    (hl : ∀ e ∈ t.entries, ∃ body, e.literal = Literal.quote body) {ps : List (Piece Text)}
    {prev prev' : Option Char} (hp : isWordAt prev' = isWordAt prev)
    (h : (reference name).find prev (ps.flatMap Piece.text) = none) :
    (reference name).find prev' (ps.flatMap t.inlinePiece) = none := by
  cases hg : (reference name).find prev' (ps.flatMap t.inlinePiece) with
  | none => rfl
  | some g =>
      have hi : g.taken <+: ps.flatMap t.inlinePiece :=
        ⟨g.rest, (reference name).taken_append_rest hg⟩
      obtain ⟨w, hw⟩ := prefix_flatMap_text hl (quote_notMem_taken hn hg) hi
      have hg' := Reference.isLocal_reference hn prev' prev _ g w hg hp.symm
      rw [hw, h] at hg'
      contradiction

/-- The pieces of what stands for a piece after inlining. -/
def rescanPiece (t : StringTable) (name : Text) (p : Piece Text) : List (Piece Text) :=
  match t.target? p with
  | some e => (reference name).scan e.literal
  | none => [p]

/-- The pieces of an inlined text are those of the source text, with the pieces of a
literal where one was put. -/
theorem scanAfter_flatMap_inlinePiece (hn : IsIdentifier name)
    (hl : ∀ e ∈ t.entries, ∃ body, e.literal = Literal.quote body) (prev : Option Char)
    (s : Text) {prev' : Option Char} (hp : isWordAt prev' = isWordAt prev) :
    (reference name).scanAfter prev'
        (((reference name).scanAfter prev s).flatMap t.inlinePiece) =
      ((reference name).scanAfter prev s).flatMap (t.rescanPiece name) := by
  fun_induction Text.Recognizer.scanAfter (reference name) prev s generalizing prev' with
  | case1 => simp [Text.Recognizer.scanAfter]
  | case2 prev c s f hf ih =>
      have hlast : f.taken.getLast? = some ']' := (Reference.mem_taken hf).2
      rw [List.flatMap_cons, List.flatMap_cons]
      rw [hlast] at ih ⊢
      cases ht : t.target? (.found f.value f.taken) with
      | some e =>
          obtain ⟨body, hb⟩ := hl e (mem_entries_of_target? ht)
          simp only [inlinePiece, rescanPiece, ht, hb]
          rw [scanAfter_literal_append hn]
          exact congrArg _ (ih rfl)
      | none =>
          simp only [inlinePiece, rescanPiece, ht, Piece.text]
          have hf' := Reference.isLocal_reference hn prev prev' _ f
            (((reference name).scanAfter (some ']') f.rest).flatMap t.inlinePiece) hf hp
          rw [(reference name).scanAfter_of_some hf']
          have ht' : isWordAt (lastAfter prev' f.taken) = isWordAt (some ']') := by
            simp [lastAfter, hlast]
          exact congrArg _ (ih ht')
  | case3 prev c s hf ih =>
      have hi : (Piece.plain c :: (reference name).scanAfter (some c) s).flatMap t.inlinePiece =
          c :: ((reference name).scanAfter (some c) s).flatMap t.inlinePiece := rfl
      have hr : (Piece.plain c :: (reference name).scanAfter (some c) s).flatMap Piece.text =
          c :: s := by
        rw [List.flatMap_cons, (reference name).flatMap_text_scanAfter]
        rfl
      have hf' := find_flatMap_inlinePiece_eq_none hn hl hp (hr ▸ hf)
      rw [hi] at hf'
      rw [hi, (reference name).scanAfter_cons_of_none hf', ih rfl]
      rfl

/-- The references among the pieces of an inlined text. -/
theorem filterMap_value?_rescanPiece (ht : t.name = some name) (hn : IsIdentifier name)
    (ps : List (Piece Text)) :
    (ps.flatMap (t.rescanPiece name)).filterMap Piece.value? =
      (ps.filterMap Piece.value?).flatMap fun digits =>
        match t.resolve? digits with
        | some e => t.references e.literal
        | none => [digits] := by
  induction ps with
  | nil => rfl
  | cons p ps ih =>
      rw [List.flatMap_cons, List.filterMap_append, ih]
      cases p with
      | plain c => rfl
      | found digits taken =>
          cases hr : t.resolve? digits with
          | none => simp [rescanPiece, target?, Piece.value?, hr]
          | some e => simp [rescanPiece, target?, Piece.value?, hr, references_eq ht hn]

end Rescan

/-- **References after inlining**: the references of an inlined text are those of the
source text, in order, with the references within a literal in place of each one that
pointed at its entry. -/
theorem references_inline (policy : Escape.Policy) (origin source : Text) :
    let t := ofSource policy origin
    t.references (t.inline source).code =
      (t.references source).flatMap fun digits =>
        match t.resolve? digits with
        | some e => t.references e.literal
        | none => [digits] := by
  intro t
  cases ht : t.name with
  | none => simp [references, ht]
  | some name =>
      have hn := isIdentifier_of_name ht
      have hs := scanAfter_flatMap_inlinePiece hn (t := t)
        (fun _ he => exists_literal_eq_quote he) none source rfl
      rw [references_eq ht hn, references_eq ht hn, inline_eq ht,
        ← filterMap_value?_rescanPiece ht hn]
      exact congrArg _ hs

/-- **Inlining once**: unless the literal of an entry holds a reference to an entry
itself, a second inlining changes nothing, whatever the source text.  The references
that are left point at no entry: their digits are not all among `0` to `9`, or they
spell zero or a number above the size of the table.  They are the references of the
source text that did so before, and those within the literals. -/
theorem inline_inline {policy : Escape.Policy} {origin : Text}
    (h : ∀ e ∈ (ofSource policy origin).entries,
      ∀ digits ∈ (ofSource policy origin).references e.literal,
        ¬ (ofSource policy origin).PointsInto digits)
    (source : Text) :
    let t := ofSource policy origin
    let code := (t.inline source).code
    t.inline code = ⟨code, 0⟩ ∧
      (∀ digits ∈ t.references code,
        (∃ c ∈ digits, isAsciiDigit c = false) ∨
          ∃ k, Spells digits k ∧ (k = 0 ∨ t.size < k)) ∧
      t.references code =
        (t.references source).flatMap fun digits =>
          match t.resolve? digits with
          | some e => t.references e.literal
          | none => [digits] := by
  intro t code
  have hr := references_inline policy origin source
  have hout : ∀ digits ∈ t.references code, ¬ t.PointsInto digits := by
    intro digits hd
    rw [show t.references code = _ from hr] at hd
    obtain ⟨before, _, hd⟩ := List.mem_flatMap.mp hd
    cases he : t.resolve? before with
    | none =>
        rw [he] at hd
        rw [List.mem_singleton.mp hd]
        exact resolve?_eq_none_iff.mp he
    | some e =>
        rw [he] at hd
        exact h e (mem_entries_of_resolve? he) digits hd
  exact ⟨inline_eq_self (fun _ => isIdentifier_of_name) hout,
    fun digits hd => (not_pointsInto_iff (ne_nil_of_mem_references hd)).mp (hout digits hd), hr⟩

/-- Literals that hold references to no entry, side by side with references that are
kept. -/
theorem inline_inline_kept :
    let t := ofSource .preserve "local J=\x7b\"J[3]\",\"J[\u0662]\"\x7d".toList
    let code := (t.inline "J[1]J[02]J[0]XJ[1]".toList).code
    (∀ e ∈ t.entries, ∀ digits ∈ t.references e.literal, ¬ t.PointsInto digits) ∧
      code = "\"J[3]\"\"J[\u0662]\"J[0]XJ[1]".toList ∧ t.inline code = ⟨code, 0⟩ :=
  have h : ∀ e ∈ (ofSource .preserve
        "local J=\x7b\"J[3]\",\"J[\u0662]\"\x7d".toList).entries,
      ∀ digits ∈ (ofSource .preserve
        "local J=\x7b\"J[3]\",\"J[\u0662]\"\x7d".toList).references e.literal,
        ¬ (ofSource .preserve
          "local J=\x7b\"J[3]\",\"J[\u0662]\"\x7d".toList).PointsInto digits := by
    decide +kernel
  ⟨h, by decide +kernel, (inline_inline h "J[1]J[02]J[0]XJ[1]".toList).1⟩

end LuaReveal.StringTable
