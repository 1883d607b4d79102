import LuaReveal.Proofs.Text.Decimal
import LuaReveal.Proofs.Text.Identifier
import LuaReveal.Proofs.Text.Scanning
import LuaReveal.StringTable.Reference

/-!
# LuaReveal.Proofs.StringTable.Subscript

References to a string table as they may be written: the name and a subscript, digits
in brackets with any blanks around the parts (`Subscript`).  A reference is recognised
exactly where a name that no word runs into stands before a subscript
(`Reference.find?_eq_some_iff`).

So it matters for a reference neither what follows it (`isLocal_reference`) nor what
else is written where it stands: within a reference there is no other
(`isDisjoint_reference`).
-/

namespace LuaReveal

open Text (Found Recognizer IsIdentifier isBlank isWord isWordAt isDigit isIdentifierStart
  takeBlanks dropBlanks lastAfter)

namespace StringTable

/-! ## Subscripts -/

/-- A subscript as it is written: digits of any script in brackets. -/
structure Subscript where
  beforeBracket : Text
  afterBracket : Text
  digits : Text
  afterDigits : Text
  isBlank_of_mem_beforeBracket : ∀ c ∈ beforeBracket, isBlank c = true
  isBlank_of_mem_afterBracket : ∀ c ∈ afterBracket, isBlank c = true
  digits_ne_nil : digits ≠ []
  isDigit_of_mem_digits : ∀ c ∈ digits, isDigit c = true
  isBlank_of_mem_afterDigits : ∀ c ∈ afterDigits, isBlank c = true

namespace Subscript

variable (sub : Subscript)

def text : Text :=
  sub.beforeBracket ++ '[' :: (sub.afterBracket ++ (sub.digits ++ (sub.afterDigits ++ [']'])))

/-- A subscript is made of blanks, brackets and digits. -/
theorem mem_text {c : Char} (hc : c ∈ sub.text) :
    isBlank c = true ∨ isDigit c = true ∨ c = '[' ∨ c = ']' := by
  simp only [text, List.mem_append, List.mem_cons, List.not_mem_nil, or_false] at hc
  have hb := sub.isBlank_of_mem_beforeBracket c
  have ha := sub.isBlank_of_mem_afterBracket c
  have hd := sub.isDigit_of_mem_digits c
  have he := sub.isBlank_of_mem_afterDigits c
  tauto

/-- No identifier starts within a subscript. -/
theorem isIdentifierStart_of_mem_text {c : Char} (hc : c ∈ sub.text) :
    isIdentifierStart c = false := by
  cases hs : isIdentifierStart c with
  | false => rfl
  | true =>
      have hb : isBlank c = false := Text.isBlank_of_isWord (Text.isWord_of_isIdentifierStart hs)
      have hd : isDigit c = false := Text.isDigit_of_isIdentifierStart hs
      have hm := sub.mem_text hc
      simp only [hb, hd, Bool.false_eq_true, false_or] at hm
      cases hm with
      | inl h => subst h; contradiction
      | inr h => subst h; contradiction

/-- No blank stands in front of the digits of a subscript. -/
theorem exists_cons_digits (t : Text) :
    ∃ d s, sub.digits ++ t = d :: s ∧ isBlank d = false := by
  obtain ⟨d, u, hd⟩ := List.exists_cons_of_ne_nil sub.digits_ne_nil
  have hm := sub.isDigit_of_mem_digits d (by simp [hd])
  exact ⟨d, u ++ t, by simp [hd], Text.isBlank_of_isDigit hm⟩

end Subscript

/-! ## References -/

namespace Reference

variable {name : Text} {prev : Option Char} {s : Text} {f : Found Text}

/-- What is recognised as a reference is the name and a subscript. -/
theorem exists_subscript (h : Reference.find? name prev s = some f) :
    Text.isBorder prev s = true ∧
      ∃ sub : Subscript, f.value = sub.digits ∧ f.taken = name ++ sub.text := by
  unfold Reference.find? at h
  split at h
  · next hb =>
    split at h
    · contradiction
    · next s₁ _ =>
      split at h
      · next s₂ _ =>
        dsimp only at h
        split at h
        · next rest _ =>
          split at h
          · contradiction
          · next hd =>
            obtain rfl := Option.some.inj h
            let sub : Subscript :=
              { beforeBracket := takeBlanks s₁
                afterBracket := takeBlanks s₂
                digits := (dropBlanks s₂).takeWhile isDigit
                afterDigits := takeBlanks ((dropBlanks s₂).dropWhile isDigit)
                isBlank_of_mem_beforeBracket := fun _ => Text.isBlank_of_mem_takeBlanks
                isBlank_of_mem_afterBracket := fun _ => Text.isBlank_of_mem_takeBlanks
                digits_ne_nil := by simpa using hd
                isDigit_of_mem_digits := List.all_eq_true.mp List.all_takeWhile
                isBlank_of_mem_afterDigits := fun _ => Text.isBlank_of_mem_takeBlanks }
            exact ⟨hb, sub, rfl, by simp [sub, Subscript.text]⟩
        · contradiction
      · contradiction
  · contradiction

section Identifier

variable (hn : IsIdentifier name)

include hn

/-- A name that no word runs into is recognised as a reference with the subscript
behind it. -/
theorem find?_append (hp : isWordAt prev = false) (sub : Subscript) (rest : Text) :
    Reference.find? name prev (name ++ (sub.text ++ rest)) =
      some ⟨sub.digits, name ++ sub.text, rest⟩ := by
  let s₄ := sub.afterDigits ++ ']' :: rest
  let s₂ := sub.afterBracket ++ (sub.digits ++ s₄)
  have hs : sub.text ++ rest = sub.beforeBracket ++ '[' :: s₂ := by simp [Subscript.text, s₂, s₄]
  have hb : Text.isBorder prev (name ++ (sub.text ++ rest)) = true := by
    obtain ⟨c, u, hc⟩ := List.exists_cons_of_ne_nil hn.ne_nil
    have hw : isWord c = true := hn.isWord_of_mem c (by simp [hc])
    simp [Text.isBorder, hp, hc, hw]
  have hbracket : isBlank '[' = false ∧ isBlank ']' = false ∧ isDigit ']' = false := by decide
  -- The digits start behind the blanks and end before them.
  obtain ⟨d, x, hx, hd⟩ := sub.exists_cons_digits s₄
  have h₁ : takeBlanks (sub.beforeBracket ++ '[' :: s₂) = sub.beforeBracket :=
    Text.takeWhile_append_cons sub.isBlank_of_mem_beforeBracket hbracket.1
  have h₁' : dropBlanks (sub.beforeBracket ++ '[' :: s₂) = '[' :: s₂ :=
    Text.dropWhile_append_cons sub.isBlank_of_mem_beforeBracket hbracket.1
  have h₂ : takeBlanks s₂ = sub.afterBracket := by
    simp only [s₂, hx]
    exact Text.takeWhile_append_cons sub.isBlank_of_mem_afterBracket hd
  have h₂' : dropBlanks s₂ = sub.digits ++ s₄ := by
    simp only [s₂, hx]
    exact Text.dropWhile_append_cons sub.isBlank_of_mem_afterBracket hd
  have h₃ : takeBlanks s₄ = sub.afterDigits :=
    Text.takeWhile_append_cons sub.isBlank_of_mem_afterDigits hbracket.2.1
  have h₃' : dropBlanks s₄ = ']' :: rest :=
    Text.dropWhile_append_cons sub.isBlank_of_mem_afterDigits hbracket.2.1
  obtain ⟨e, y, hy, he⟩ : ∃ e y, s₄ = e :: y ∧ isDigit e = false := by
    cases ha : sub.afterDigits with
    | nil => exact ⟨']', rest, by simp [s₄, ha], hbracket.2.2⟩
    | cons e y =>
        have hm := sub.isBlank_of_mem_afterDigits e (by simp [ha])
        exact ⟨e, y ++ ']' :: rest, by simp [s₄, ha], Text.isDigit_of_isBlank hm⟩
  have h₄ : (sub.digits ++ s₄).takeWhile isDigit = sub.digits := by
    rw [hy]
    exact Text.takeWhile_append_cons sub.isDigit_of_mem_digits he
  have h₄' : (sub.digits ++ s₄).dropWhile isDigit = s₄ := by
    rw [hy]
    exact Text.dropWhile_append_cons sub.isDigit_of_mem_digits he
  have hne : sub.digits.isEmpty = false := by simpa using sub.digits_ne_nil
  unfold Reference.find?
  rw [if_pos hb, Text.after?_append, hs]
  simp only [h₁, h₁', h₂, h₂', h₃, h₃', h₄, h₄', hne]
  simp [Subscript.text]

/-- **References**: a reference to a table is recognised exactly where no word runs
into the name and a subscript follows it. -/
theorem find?_eq_some_iff :
    Reference.find? name prev s = some f ↔
      isWordAt prev = false ∧
        ∃ sub : Subscript, f.value = sub.digits ∧ f.taken = name ++ sub.text ∧
          s = f.taken ++ f.rest := by
  constructor
  · intro h
    obtain ⟨hb, sub, hv, ht⟩ := exists_subscript h
    have hs := (append_of_find? h).1
    obtain ⟨c, u, hc⟩ := List.exists_cons_of_ne_nil hn.ne_nil
    have hw : isWord c = true := hn.isWord_of_mem c (by simp [hc])
    have hp : isWordAt prev = false := by
      simpa [Text.isBorder, ← hs, ht, hc, hw] using hb
    exact ⟨hp, sub, hv, ht, hs.symm⟩
  · intro ⟨hp, sub, hv, ht, hs⟩
    obtain ⟨value, taken, rest⟩ := f
    simp only at hv ht hs
    rw [hs, hv, ht, List.append_assoc]
    exact find?_append hn hp sub rest

/-- What is recognised as a reference does not depend on what follows it. -/
theorem isLocal_reference : (reference name).IsLocal := by
  intro p q s f t hf hq
  obtain ⟨hp, sub, hv, ht, _⟩ := (find?_eq_some_iff hn).mp hf
  exact (find?_eq_some_iff hn).mpr ⟨hq.trans hp, sub, hv, ht, rfl⟩

/-- There is no reference within a reference. -/
theorem isDisjoint_reference : (reference name).IsDisjoint := by
  intro p s f u v t hf huv hu hv
  obtain ⟨_, sub, _, ht, _⟩ := (find?_eq_some_iff hn).mp hf
  cases hg : (reference name).find (lastAfter p u) (v ++ t) with
  | none => rfl
  | some g =>
      obtain ⟨hp, sub', _, ht', hs'⟩ := (find?_eq_some_iff hn).mp hg
      rw [ht] at huv
      cases List.append_eq_append_iff.mp huv with
      | inl h =>
          -- It would start in the subscript, where no identifier starts.
          obtain ⟨x, _, hx⟩ := h
          obtain ⟨c, w, hw⟩ := List.exists_cons_of_ne_nil hv
          have hm : isIdentifierStart c = false :=
            sub.isIdentifierStart_of_mem_text (by simp [hx, hw])
          cases hn with
          | cons hc _ =>
              rw [ht', hw, List.cons_append, List.cons_append, List.cons_append] at hs'
              rw [(List.cons.inj hs').1, hc] at hm
              contradiction
      | inr h =>
          -- It would start in the name, where a word runs into it.
          obtain ⟨x, hx, _⟩ := h
          have hm : u.getLast hu ∈ name := hx ▸ List.mem_append_left x (List.getLast_mem hu)
          rw [lastAfter, List.getLast?_eq_some_getLast hu, Option.some_or, Text.isWordAt_some,
            hn.isWord_of_mem _ hm] at hp
          contradiction

/-- A character that is in no identifier and no subscript is in no reference. -/
theorem notMem_taken {c : Char} (hw : isWord c = false) (hb : isBlank c = false)
    (hd : isDigit c = false) (h₁ : c ≠ '[') (h₂ : c ≠ ']')
    (h : Reference.find? name prev s = some f) : c ∉ f.taken := by
  obtain ⟨_, sub, _, ht⟩ := exists_subscript h
  intro hc
  rw [ht] at hc
  cases List.mem_append.mp hc with
  | inl hm => simp [hn.isWord_of_mem c hm] at hw
  | inr hm => simpa [hb, hd, h₁, h₂] using sub.mem_text hm

end Identifier

end Reference

end StringTable

end LuaReveal
