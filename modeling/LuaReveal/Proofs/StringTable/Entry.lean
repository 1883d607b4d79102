import LuaReveal.Proofs.Escape.Repetition
import LuaReveal.Proofs.Escape.Resolution
import LuaReveal.Proofs.Literal.Structure
import LuaReveal.Proofs.Literal.Units
import LuaReveal.Proofs.Text.Occurrence
import LuaReveal.StringTable.Declaration

/-!
# LuaReveal.Proofs.StringTable.Entry

The entries of the string table that a source text declares.  The raw text of an
entry is the body of a literal, and the literal of an entry is that body
decoded.

The literal that stands for a reference is decoded a second time, with the whole
source text, while the member of the declaration is decoded once.  The two
differ exactly if the first decoding completes an escape
(`decodeAll_literal_eq_self_iff`): in `\1\060` the digit that is decoded comes to
stand behind a backslash and a digit that were no octal escape before.

The value of an entry is resolved from the raw text decoded by itself, where a
decoded backslash has no second one before it.  It is the text that the literal
stands for exactly if no such backslash is misread (`value_eq_resolve_literal_iff`):
`\134n` is a backslash and a letter in the literal, and a line feed in the value.
-/

namespace LuaReveal.StringTable

open Literal (Body)

/-! ## Raw texts and literals -/

/-- The bodies that a declaration reads are bodies of literals. -/
theorem body_of_mem_readBodies? {s : Text} {bodies : List Text} (h : readBodies? s = some bodies) :
    ∀ body ∈ bodies, Body .lines body := by
  fun_induction readBodies? s generalizing bodies with
  | case1 => contradiction
  | case2 s body rest hr _ _ =>
      obtain rfl := Option.some.inj h
      intro b hb
      rw [List.mem_singleton.mp hb]
      exact Literal.body_of_readBody? hr
  | case3 s body rest hr _ ih =>
      obtain ⟨more, hm, rfl⟩ := Option.map_eq_some_iff.mp h
      intro b hb
      rcases List.mem_cons.mp hb with rfl | hb
      · exact Literal.body_of_readBody? hr
      · exact ih hm b hb
  | case4 => contradiction

/-- The table of a source text is empty, or it is made of a declaration that is
found at some place of the text. -/
theorem ofSource_cases (policy : Escape.Policy) (source : Text) :
    ofSource policy source = empty ∨
      ∃ d before after, source = before ++ after ∧
        Declaration.find? (Text.lastAfter none before) after = some d ∧
        ofSource policy source = ofBodies policy d.name d.bodies := by
  cases hd : Declaration.first? source with
  | none => exact .inl (by rw [ofSource, hd])
  | some d =>
      have hm : d ∈ Text.occurrences Declaration.find? source := List.mem_of_mem_head? hd
      obtain ⟨before, after, hs, _, hf⟩ := Text.mem_occurrences_iff.mp hm
      exact .inr ⟨d, before, after, hs, hf, by rw [ofSource, hd]⟩

/-- The bodies of a declaration are bodies of literals. -/
theorem Declaration.body_of_mem {prev : Option Char} {s : Text} {d : Declaration}
    (h : Declaration.find? prev s = some d) : ∀ body ∈ d.bodies, Body .lines body := by
  simp only [Declaration.find?, Option.bind_eq_bind, Option.bind_eq_some_iff] at h
  obtain ⟨_, _, _, _, _, _, _, _, _, _, bodies, hb, hd⟩ := h
  obtain rfl := Option.some.inj hd
  exact body_of_mem_readBodies? hb

/-- An entry is made of the body of a literal. -/
theorem exists_ofBody_of_mem {policy : Escape.Policy} {source : Text} {e : Entry}
    (he : e ∈ (ofSource policy source).entries) :
    ∃ name index body, Body .lines body ∧ e = Entry.ofBody policy name index body := by
  rcases ofSource_cases policy source with h | ⟨d, before, after, _, hf, h⟩
  · rw [h] at he
    exact absurd he List.not_mem_nil
  · rw [h] at he
    obtain ⟨i, hi, rfl⟩ := List.mem_mapIdx.mp he
    exact ⟨d.name, i + 1, _, Declaration.body_of_mem hf _ (List.getElem_mem hi), rfl⟩

/-- The raw text of an entry is the body of a literal, and its literal is that
body decoded. -/
theorem raw_literal_of_mem {policy : Escape.Policy} {source : Text} {e : Entry}
    (he : e ∈ (ofSource policy source).entries) :
    Body .lines e.raw ∧ e.literal = Literal.requote policy e.raw := by
  obtain ⟨name, index, body, hb, rfl⟩ := exists_ofBody_of_mem he
  exact ⟨hb, rfl⟩

/-! ## Decoding the literal of an entry -/

/-- **Second decoding of an entry**: the literal of an entry on one line is kept
by the decoding of the source text exactly if the decoding of its raw text
completes no escape. -/
theorem decodeAll_literal_eq_self_iff {policy : Escape.Policy} {source : Text} {e : Entry}
    (he : e ∈ (ofSource policy source).entries) (hn : '\n' ∉ e.raw) :
    Literal.decodeAll policy e.literal = e.literal ↔
      Escape.completes policy (Escape.tokens e.raw) = false := by
  obtain ⟨hb, hl⟩ := raw_literal_of_mem he
  have hd : Body .line (Escape.decode policy .quoted e.raw) :=
    (hb.line_of_newline_notMem hn).decode
  have ha : Literal.decodeAll policy (Literal.requote policy e.raw) =
      Literal.quote (Escape.decode policy .quoted (Escape.decode policy .quoted e.raw)) := by
    have h := Literal.decodeAll_literal policy hd []
    rwa [List.append_nil, Literal.decodeAll_nil, List.append_nil] at h
  rw [hl, ha, Literal.requote, Literal.quote_inj]
  exact Escape.decode_decode_eq_self_iff policy e.raw

/-- The short escape `\1` is completed by the decoded digit after it. -/
theorem decodeAll_literal_eq_self_iff_shortEscape :
    let e := Entry.ofBody .preserve ['J'] 1 "\\1\\06001".toList
    e ∈ (ofSource .preserve "local J=\x7b\"\\1\\06001\"\x7d".toList).entries ∧ '\n' ∉ e.raw ∧
      (Literal.decodeAll .preserve e.literal = e.literal ↔
        Escape.completes .preserve (Escape.tokens e.raw) = false) :=
  have he : Entry.ofBody .preserve ['J'] 1 "\\1\\06001".toList ∈
      (ofSource .preserve "local J=\x7b\"\\1\\06001\"\x7d".toList).entries := by decide +kernel
  ⟨he, by decide, decodeAll_literal_eq_self_iff he (by decide)⟩

/-- The literal of an entry on one line may change when it is decoded with the
source text: `"\1\06001"` is decoded to `"\1001"`, and that to `"@1"`. -/
theorem exists_decodeAll_literal_ne :
    ∃ e ∈ (ofSource .preserve "local J=\x7b\"\\1\\06001\"\x7d".toList).entries,
      '\n' ∉ e.raw ∧ e.literal = "\"\\1001\"".toList ∧
        Literal.decodeAll .preserve e.literal ≠ e.literal := by
  decide +kernel

/-! ## The value of an entry -/

/-- **Value and literal**: the value of an entry is the text that its literal stands
for, the literal between its quotes with the mnemonic escapes resolved, exactly if no
backslash that is decoded from the raw text is misread. -/
theorem value_eq_resolve_literal_iff {policy : Escape.Policy} {source : Text} {e : Entry}
    (he : e ∈ (ofSource policy source).entries) :
    e.value = Escape.resolve (Literal.unquote e.literal) ↔
      Escape.misreads policy (Escape.tokens e.raw) = false := by
  obtain ⟨name, index, body, _, rfl⟩ := exists_ofBody_of_mem he
  show Escape.resolve (Escape.decode policy .bare body) =
      Escape.resolve (Literal.unquote (Literal.requote policy body)) ↔ _
  rw [Literal.requote, Literal.unquote_quote]
  exact Escape.resolve_decode_eq_iff policy body

/-- A decoded backslash before a pair, a dropped escape and an escaped quote, where it
is left, and one before a letter that makes a mnemonic escape with it. -/
theorem value_eq_resolve_literal_iff_backslashes :
    let e := Entry.ofBody .filter ['J'] 1 "\\134\\\\\\001\\\"\\134t".toList
    e ∈ (ofSource .filter
        "local J=\x7b\"\\134\\\\\\001\\\"\\134t\"\x7d".toList).entries ∧
      (e.value = Escape.resolve (Literal.unquote e.literal) ↔
        Escape.misreads .filter (Escape.tokens e.raw) = false) :=
  have he : Entry.ofBody .filter ['J'] 1 "\\134\\\\\\001\\\"\\134t".toList ∈
      (ofSource .filter
        "local J=\x7b\"\\134\\\\\\001\\\"\\134t\"\x7d".toList).entries := by
    decide +kernel
  ⟨he, value_eq_resolve_literal_iff he⟩

/-- The value of an entry may differ from the text that its literal stands for: of
`\134n` the value is a line feed, and the literal stands for a backslash and an `n`. -/
theorem exists_value_ne_resolve_literal :
    ∃ e ∈ (ofSource .preserve "local J=\x7b\"\\134n\"\x7d".toList).entries,
      e.value = ['\n'] ∧ e.literal = "\"\\\\n\"".toList ∧
        Escape.resolve (Literal.unquote e.literal) = ['\\', 'n'] ∧
        e.value ≠ Escape.resolve (Literal.unquote e.literal) := by
  decide +kernel

end LuaReveal.StringTable
