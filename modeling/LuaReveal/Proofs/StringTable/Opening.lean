import LuaReveal.Proofs.Literal.Standing
import LuaReveal.Proofs.StringTable.Entry
import LuaReveal.Proofs.StringTable.Subscript

/-!
# LuaReveal.Proofs.StringTable.Opening

The opening of the declaration of a string table, `local name = {`, stands in the
source text that the table was read from (`exists_opening`), and it stays there
under inlining (`Opening.inline`) and decoding (`Opening.decodeAll`).

No reference reaches into an opening: it ends with a bracket, which no opening
has, and it has no brace.
-/

namespace LuaReveal.StringTable

open Text (Found Piece Recognizer KeepsEnd StaysAfter StandsIn isBlank isWord isDigit isWordAt
  takeBlanks lastAfter)

/-! ## Openings -/

/-- An opening: the keyword, the name, the sign and the brace, with blanks
between them. -/
structure Opening where
  name : Text
  afterKeyword : Text
  beforeSign : Text
  afterSign : Text
  name_ne_nil : name ≠ []
  isWord_of_mem_name : ∀ c ∈ name, isWord c = true
  afterKeyword_ne_nil : afterKeyword ≠ []
  isBlank_of_mem_afterKeyword : ∀ c ∈ afterKeyword, isBlank c = true
  isBlank_of_mem_beforeSign : ∀ c ∈ beforeSign, isBlank c = true
  isBlank_of_mem_afterSign : ∀ c ∈ afterSign, isBlank c = true

namespace Opening

variable (o : Opening)

/-- An opening as it is written. -/
def text : Text :=
  "local".toList ++
    (o.afterKeyword ++ (o.name ++ (o.beforeSign ++ '=' :: (o.afterSign ++ ['\x7b']))))

/-- An opening is made of words, blanks, the sign and the brace. -/
theorem mem_text {c : Char} (hc : c ∈ o.text) :
    isWord c = true ∨ isBlank c = true ∨ c = '=' ∨ c = '\x7b' := by
  have hk : "local".toList.all isWord = true := by decide
  simp only [text, List.mem_append, List.mem_cons, List.not_mem_nil, or_false] at hc
  rcases hc with hc | hc | hc | hc | hc | hc | hc
  · exact .inl (List.all_eq_true.mp hk c hc)
  · exact .inr (.inl (o.isBlank_of_mem_afterKeyword c hc))
  · exact .inl (o.isWord_of_mem_name c hc)
  · exact .inr (.inl (o.isBlank_of_mem_beforeSign c hc))
  · exact .inr (.inr (.inl hc))
  · exact .inr (.inl (o.isBlank_of_mem_afterSign c hc))
  · exact .inr (.inr (.inr hc))

/-- The brace of an opening is in each of its ends. -/
theorem brace_mem {u v : Text} (h : o.text = u ++ v) (hv : v ≠ []) : '\x7b' ∈ v := by
  have hl : o.text.getLast? = some '\x7b' := by simp [text, List.getLast?_cons]
  rw [h, List.getLast?_append] at hl
  cases he : v.getLast? with
  | none => exact absurd (List.getLast?_eq_none_iff.mp he) hv
  | some c =>
      rw [he, Option.some_or] at hl
      exact List.mem_of_getLast? (he.trans hl)

theorem bracket_notMem : ']' ∉ o.text := fun h =>
  absurd (o.mem_text h) (by decide)

/-- An opening takes no part in literals and escapes. -/
theorem inert : Literal.Inert o.text where
  quote_notMem h := absurd (o.mem_text h) (by decide)
  backslash_notMem h := absurd (o.mem_text h) (by decide)
  exists_cons := ⟨'l', _, rfl, by decide⟩

end Opening

/-! ## The opening of a declaration -/

section Find

variable {prev : Option Char} {s rest : Text}

/-- A sign that is read stands between blanks at the front of the text. -/
theorem eq_of_afterSign? {c : Char} (h : afterSign? c s = some rest) :
    ∃ b b', (∀ c ∈ b, isBlank c = true) ∧ (∀ c ∈ b', isBlank c = true) ∧
      s = b ++ c :: (b' ++ rest) := by
  unfold afterSign? at h
  split at h
  · next d t ht =>
    split at h
    · next hd =>
      obtain rfl := Option.some.inj h
      refine ⟨takeBlanks s, takeBlanks t, fun _ => Text.isBlank_of_mem_takeBlanks,
        fun _ => Text.isBlank_of_mem_takeBlanks, ?_⟩
      rw [Text.takeBlanks_append_dropBlanks, ← hd, ← ht, Text.takeBlanks_append_dropBlanks]
    · contradiction
  · contradiction

/-- A declaration starts with an opening. -/
theorem Declaration.exists_opening {d : Declaration} (h : Declaration.find? prev s = some d) :
    isWordAt prev = false ∧
      ∃ (o : Opening) (after : Text), o.name = d.name ∧ s = o.text ++ after := by
  simp only [Declaration.find?, Option.bind_eq_bind, Option.bind_eq_some_iff] at h
  obtain ⟨s₁, h₁, s₂, h₂, ⟨name, s₃⟩, h₃, s₄, h₄, s₅, h₅, bodies, _, hd⟩ := h
  obtain rfl := Option.some.inj hd
  cases hp : isWordAt prev with
  | true => simp [Text.afterKeyword?, hp] at h₁
  | false =>
      have hk : s = "local".toList ++ s₁ := by
        simpa [Text.afterKeyword?, hp, Text.after?_eq_some_iff] using h₁
      obtain ⟨b₁, hn₁, hb₁, hs₁⟩ := Text.eq_of_afterBlanks? h₂
      obtain ⟨b₂, b₃, hb₂, hb₃, hs₃⟩ := eq_of_afterSign? (s := s₃) h₄
      obtain ⟨b₄, b₅, hb₄, _, hs₄⟩ := eq_of_afterSign? h₅
      have hw := Text.isWord_of_mem_identifier h₃
      have hn := Text.ne_nil_of_readIdentifier? h₃
      refine ⟨rfl, ⟨name, b₁, b₂, b₃ ++ b₄, hn, hw, hn₁, hb₁, hb₂, ?_⟩, b₅ ++ s₅, rfl, ?_⟩
      · intro c hc
        rcases List.mem_append.mp hc with hc | hc
        · exact hb₃ c hc
        · exact hb₄ c hc
      · rw [hk, hs₁, ← Text.append_of_readIdentifier? h₃, hs₃, hs₄]
        simp [Opening.text]

end Find

/-- The table of a source text is named by an opening that stands in the text. -/
theorem exists_opening {policy : Escape.Policy} {source name : Text}
    (h : (ofSource policy source).name = some name) :
    ∃ o : Opening, o.name = name ∧ StandsIn o.text source := by
  rcases ofSource_cases policy source with he | ⟨d, before, after, hs, hf, he⟩
  · rw [he] at h
    contradiction
  · rw [he] at h
    obtain ⟨hp, o, rest, hn, ha⟩ := Declaration.exists_opening hf
    exact ⟨o, hn.trans (Option.some.inj h), before, rest, by rw [hs, ha], hp⟩

/-! ## References around an opening -/

section Reference

variable {name : Text} {prev : Option Char} {s : Text} {f : Found Text}

/-- A reference is made of the name, blanks, digits and brackets, and ends with a
bracket. -/
theorem Reference.mem_taken (h : Reference.find? name prev s = some f) :
    (∀ c ∈ f.taken, c ∈ name ∨ isBlank c = true ∨ isDigit c = true ∨ c = '[' ∨ c = ']') ∧
      f.taken.getLast? = some ']' := by
  obtain ⟨_, sub, _, ht⟩ := Reference.exists_subscript h
  rw [ht]
  refine ⟨fun c hc => (List.mem_append.mp hc).imp id sub.mem_text, ?_⟩
  simp [Subscript.text, List.getLast?_cons]

/-- A reference has no brace if the name has none. -/
theorem Reference.brace_notMem (hn : '\x7b' ∉ name) (h : Reference.find? name prev s = some f) :
    '\x7b' ∉ f.taken := by
  intro hc
  rcases (Reference.mem_taken h).1 _ hc with hc | hc
  · exact hn hc
  · exact absurd hc (by decide)

/-- A reference does not reach into a text with a brace and without a bracket. -/
theorem Reference.ends_before (hn : '\x7b' ∉ name) {before p after : Text} (hp : '\x7b' ∈ p)
    (hb : ']' ∉ p) (h : Reference.find? name prev (before ++ (p ++ after)) = some f) :
    ∃ w, before = f.taken ++ w := by
  have he := (Reference.append_of_find? h).1
  rcases List.append_eq_append_iff.mp he with ⟨w, hw, _⟩ | ⟨v, hv, hr⟩
  · exact ⟨w, hw⟩
  · rcases List.append_eq_append_iff.mp hr with ⟨x, hx, _⟩ | ⟨x, hx, _⟩
    · refine absurd ?_ (Reference.brace_notMem hn h)
      rw [hv, hx]
      simp [hp]
    · -- The reference ends in `p`, and so does its bracket unless it ends before `p`.
      cases hl : v.getLast? with
      | none =>
          rw [List.getLast?_eq_none_iff] at hl
          exact ⟨[], by rw [hv, hl, List.append_nil, List.append_nil]⟩
      | some c =>
          have hc := (Reference.mem_taken h).2
          rw [hv, List.getLast?_append, hl, Option.some_or] at hc
          refine absurd ?_ hb
          rw [hx, ← Option.some.inj hc]
          exact List.mem_append_left x (List.mem_of_getLast? hl)

end Reference

/-- In a scan for references an opening is passed over character by character. -/
theorem Opening.exists_scan (o : Opening) {name : Text} (hn : '\x7b' ∉ name)
    (before after : Text) :
    ∃ ps qs, (reference name).scan (before ++ (o.text ++ after)) =
        ps ++ (o.text.map .plain ++ qs) ∧ ps.flatMap Piece.text = before := by
  have hw : (reference name).EndsWithin none before (o.text ++ after) := fun u v f _ _ hf =>
    Reference.ends_before hn (o.brace_mem (List.nil_append _).symm (by simp [text]))
      o.bracket_notMem hf
  have ho : ∀ u v, o.text = u ++ v → v ≠ [] →
      (reference name).find (lastAfter (lastAfter none before) u) (v ++ after) = none := by
    intro u v he hv
    cases hf : (reference name).find (lastAfter (lastAfter none before) u) (v ++ after) with
    | none => rfl
    | some f =>
        have hb : ']' ∉ v := fun hc => o.bracket_notMem (he ▸ List.mem_append_right u hc)
        obtain ⟨w, hw⟩ : ∃ w, [] = f.taken ++ w :=
          Reference.ends_before hn (o.brace_mem he hv) hb hf
        exact absurd (List.append_eq_nil_iff.mp hw.symm).1 ((reference name).taken_ne_nil hf)
  obtain ⟨ps, hp, ht⟩ := hw.scanAfter_append
  rw [(reference name).scanAfter_append_plain ho] at hp
  exact ⟨ps, _, hp, ht⟩

/-! ## Inlining and decoding around an opening -/

/-- An entry that digits point at is in the table. -/
theorem mem_entries_of_resolve? {t : StringTable} {digits : Text} {e : Entry}
    (h : t.resolve? digits = some e) : e ∈ t.entries := by
  obtain ⟨n, _, hn⟩ := Option.bind_eq_some_iff.mp h
  cases n with
  | zero => contradiction
  | succ n => exact List.mem_of_getElem? hn

/-- An entry that a piece points at is in the table. -/
theorem mem_entries_of_target? {t : StringTable} {p : Piece Text} {e : Entry}
    (h : t.target? p = some e) : e ∈ t.entries := by
  obtain ⟨digits, _, hr⟩ := Option.bind_eq_some_iff.mp h
  exact mem_entries_of_resolve? hr

section Passes

variable (policy : Escape.Policy) (source : Text)

/-- What stands for a piece of a text ends as the piece does or with the quote of
a literal. -/
theorem keepsEnd_inlinePiece (p : Piece Text) :
    KeepsEnd p.text ((ofSource policy source).inlinePiece p) := by
  unfold inlinePiece
  cases h : (ofSource policy source).target? p with
  | none => exact KeepsEnd.refl p.text
  | some e =>
      have hl := (raw_literal_of_mem (mem_entries_of_target? h)).2
      dsimp only
      rw [hl]
      exact KeepsEnd.of_snoc (by decide) p.text ('"' :: Escape.decode policy .quoted e.raw)

/-- A character that is a piece by itself stays. -/
theorem flatMap_inlinePiece_plain (t : StringTable) (s : Text) :
    (s.map Piece.plain).flatMap t.inlinePiece = s := by
  induction s with
  | nil => rfl
  | cons c s ih =>
      rw [List.map_cons, List.flatMap_cons, ih]
      rfl

/-- Inlining leaves an opening where it stands. -/
theorem Opening.inline (o : Opening) {s : Text} (before after : Text)
    (hs : s = before ++ (o.text ++ after)) :
    StaysAfter o.text before ((ofSource policy source).inline s).code := by
  unfold StringTable.inline
  cases hn : (ofSource policy source).name with
  | none => exact ⟨before, after, hs, KeepsEnd.refl before⟩
  | some name =>
      have hb : '\x7b' ∉ name := by
        obtain ⟨o', rfl, _⟩ := exists_opening hn
        exact fun hc => absurd (o'.isWord_of_mem_name _ hc) (by decide)
      obtain ⟨ps, qs, hp, ht⟩ := o.exists_scan hb before after
      have hk := KeepsEnd.flatMap fun p (_ : p ∈ ps) => keepsEnd_inlinePiece policy source p
      rw [ht] at hk
      refine ⟨ps.flatMap _, qs.flatMap (ofSource policy source).inlinePiece, ?_, hk⟩
      dsimp only
      rw [hs, hp, List.flatMap_append, List.flatMap_append, flatMap_inlinePiece_plain]

/-- **The opening after the passes**: an opening that names the table of a source
text stands in the text once its references are inlined and its literals
decoded. -/
theorem exists_opening_decodeAll {name : Text} (h : (ofSource policy source).name = some name)
    (policy' : Escape.Policy) :
    ∃ o : Opening, o.name = name ∧
      StandsIn o.text
        (Literal.decodeAll policy' ((ofSource policy source).inline source).code) := by
  obtain ⟨o, hn, hs⟩ := exists_opening h
  have hi := hs.of_staysAfter (o.inline policy source)
  exact ⟨o, hn, hi.of_staysAfter (o.inert.decodeAll policy' _)⟩

end Passes

end LuaReveal.StringTable
