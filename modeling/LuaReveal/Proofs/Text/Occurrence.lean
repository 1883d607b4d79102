import LuaReveal.Text.Scan

/-!
# LuaReveal.Proofs.Text.Occurrence

Where the answers of a search come from: an answer is found at a place that cuts
the text in two, from the character before the place and the text after it.
-/

namespace LuaReveal.Text

variable {find : Option Char → Text → Option α} {prev : Option Char} {s : Text} {a : α}

/-- The last character of a text that starts after `prev`, or `prev` itself. -/
def lastAfter (prev : Option Char) (s : Text) : Option Char :=
  s.getLast?.or prev

@[simp] theorem lastAfter_nil (prev : Option Char) : lastAfter prev [] = prev := rfl

@[simp] theorem lastAfter_cons (prev : Option Char) (c : Char) (s : Text) :
    lastAfter prev (c :: s) = lastAfter (some c) s := by
  cases h : s.getLast? <;> simp [lastAfter, List.getLast?_cons, h]

@[simp] theorem lastAfter_append (prev : Option Char) (s t : Text) :
    lastAfter prev (s ++ t) = lastAfter (lastAfter prev s) t := by
  simp [lastAfter, Option.or_assoc]

/-- The answers of a search are those at the places that cut the text in two. -/
theorem mem_occurrencesAfter_iff :
    a ∈ occurrencesAfter find prev s ↔
      ∃ before after, s = before ++ after ∧ after ≠ [] ∧
        find (lastAfter prev before) after = some a := by
  induction s generalizing prev with
  | nil =>
      constructor
      · intro h
        contradiction
      · rintro ⟨before, after, hs, hn, _⟩
        exact absurd (List.append_eq_nil_iff.mp hs.symm).2 hn
  | cons c s ih =>
      rw [occurrencesAfter, List.mem_append, Option.mem_toList, ih]
      constructor
      · rintro (h | ⟨before, after, rfl, hn, h⟩)
        · exact ⟨[], c :: s, rfl, by simp, h⟩
        · exact ⟨c :: before, after, rfl, hn, by rwa [lastAfter_cons]⟩
      · rintro ⟨before, after, hs, hn, h⟩
        cases before with
        | nil =>
            rw [List.nil_append] at hs
            exact .inl (by rw [hs]; exact h)
        | cons d before =>
            obtain ⟨rfl, rfl⟩ := List.cons.inj hs
            exact .inr ⟨before, after, rfl, hn, by rwa [lastAfter_cons] at h⟩

theorem mem_occurrences_iff :
    a ∈ occurrences find s ↔
      ∃ before after, s = before ++ after ∧ after ≠ [] ∧
        find (lastAfter none before) after = some a :=
  mem_occurrencesAfter_iff

/-- A search goes on after a text at whose places there are no answers. -/
theorem occurrencesAfter_append {x : Text}
    (h : ∀ u v, x = u ++ v → v ≠ [] → find (lastAfter prev u) (v ++ s) = none) :
    occurrencesAfter find prev (x ++ s) = occurrencesAfter find (lastAfter prev x) s := by
  induction x generalizing prev with
  | nil => rfl
  | cons c x ih =>
      have hc : find prev (c :: (x ++ s)) = none := h [] (c :: x) rfl (by simp)
      have hx : ∀ u v, x = u ++ v → v ≠ [] →
          find (lastAfter (some c) u) (v ++ s) = none := by
        intro u v he hv
        simpa using h (c :: u) v (by rw [he]; rfl) hv
      rw [List.cons_append, occurrencesAfter, hc, ih hx, lastAfter_cons]
      rfl

/-- A search goes on after characters at which there are no answers. -/
theorem occurrencesAfter_append_of_none {x : Text}
    (h : ∀ p, ∀ c ∈ x, ∀ s, find p (c :: s) = none) :
    occurrencesAfter find prev (x ++ s) = occurrencesAfter find (lastAfter prev x) s := by
  apply occurrencesAfter_append
  intro u v he hv
  cases v with
  | nil => contradiction
  | cons c v => exact h _ c (by simp [he]) (v ++ s)

end LuaReveal.Text
