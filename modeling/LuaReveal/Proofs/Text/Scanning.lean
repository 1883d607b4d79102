import LuaReveal.Proofs.Text.Occurrence
import LuaReveal.Text.Word

/-!
# LuaReveal.Proofs.Text.Scanning

The pieces of a scan, one at a time.  A scan can be cut at a place that nothing
recognised reaches over (`Recognizer.EndsWithin.scanAfter_append`).

Of a recogniser that looks at nothing but what it takes (`Recognizer.IsLocal`), the
two parts are then scanned by themselves.  Where what is recognised does not overlap
(`Recognizer.IsDisjoint`), a scan finds all that a search finds
(`Recognizer.IsDisjoint.values_scanAfter`).
-/

namespace LuaReveal.Text

namespace Recognizer

variable (r : Recognizer α)

/-! ## One piece -/

/-- What a recogniser takes at a place is not empty, so its last character is
before the rest. -/
theorem getLast?_taken {prev : Option Char} {s : Text} {f : Found α}
    (h : r.find prev s = some f) : f.taken.getLast? = lastAfter prev f.taken := by
  cases hl : f.taken.getLast? with
  | none => exact absurd (List.getLast?_eq_none_iff.mp hl) (r.taken_ne_nil h)
  | some c => simp [lastAfter, hl]

theorem scanAfter_cons_of_none {prev : Option Char} {c : Char} {s : Text}
    (h : r.find prev (c :: s) = none) :
    r.scanAfter prev (c :: s) = .plain c :: r.scanAfter (some c) s := by
  rw [scanAfter]
  split
  · next f hf => exact absurd (hf.symm.trans h) (by simp)
  · rfl

theorem scanAfter_cons_of_some {prev : Option Char} {c : Char} {s : Text} {f : Found α}
    (h : r.find prev (c :: s) = some f) :
    r.scanAfter prev (c :: s) =
      .found f.value f.taken :: r.scanAfter (lastAfter prev f.taken) f.rest := by
  rw [← r.getLast?_taken h, scanAfter]
  split
  · next f' hf =>
    obtain rfl : f' = f := Option.some.inj (hf.symm.trans h)
    rfl
  · next hf => exact absurd (hf.symm.trans h) (by simp)

/-- What is recognised at the front of a text is its first piece. -/
theorem scanAfter_of_some {prev : Option Char} {s : Text} {f : Found α}
    (h : r.find prev s = some f) :
    r.scanAfter prev s =
      .found f.value f.taken :: r.scanAfter (lastAfter prev f.taken) f.rest := by
  cases s with
  | nil => exact absurd (List.append_eq_nil_iff.mp (r.taken_append_rest h)).1 (r.taken_ne_nil h)
  | cons c s => exact r.scanAfter_cons_of_some h

/-! ## Scanning up to a place -/

/-- What is recognised at the places of `b`, which `t` follows, ends within `b`. -/
def EndsWithin (prev : Option Char) (b t : Text) : Prop :=
  ∀ u v f, b = u ++ v → v ≠ [] → r.find (lastAfter prev u) (v ++ t) = some f →
    ∃ w, v = f.taken ++ w

variable {r}

/-- What ends within a text also does after a part of it. -/
theorem EndsWithin.after {prev : Option Char} {a b t : Text} (h : r.EndsWithin prev (a ++ b) t) :
    r.EndsWithin (lastAfter prev a) b t := by
  intro u v f hb hv hf
  refine h (a ++ u) v f ?_ hv (by rwa [lastAfter_append])
  rw [hb, List.append_assoc]

/-- What is recognised at the front of `b` leaves a part of `b`, to which the same
applies. -/
theorem EndsWithin.exists_rest {prev : Option Char} {c : Char} {b t : Text} {f : Found α}
    (h : r.EndsWithin prev (c :: b) t) (hf : r.find prev (c :: (b ++ t)) = some f) :
    ∃ w, c :: b = f.taken ++ w ∧ f.rest = w ++ t ∧ w.length < b.length + 1 ∧
      r.EndsWithin (lastAfter prev f.taken) w t := by
  obtain ⟨w, hw⟩ := h [] (c :: b) f rfl (by simp) hf
  have hr : f.rest = w ++ t := by
    have he := r.taken_append_rest hf
    rw [← List.cons_append, hw, List.append_assoc] at he
    exact List.append_cancel_left he
  have hlt : w.length < b.length + 1 := by
    have hl := congrArg List.length hw
    have hn := List.length_pos_iff.mpr (r.taken_ne_nil hf)
    simp only [List.length_cons, List.length_append] at hl
    omega
  exact ⟨w, hw, hr, hlt, (hw ▸ h).after⟩

/-- Where everything that is recognised ends within `b`, the scan makes pieces of
`b` and then goes on after it. -/
theorem EndsWithin.scanAfter_append {prev : Option Char} {b t : Text}
    (h : r.EndsWithin prev b t) :
    ∃ ps, r.scanAfter prev (b ++ t) = ps ++ r.scanAfter (lastAfter prev b) t ∧
      ps.flatMap Piece.text = b := by
  match b with
  | [] => exact ⟨[], rfl, rfl⟩
  | c :: b =>
      cases hf : r.find prev (c :: (b ++ t)) with
      | none =>
          have hb : r.EndsWithin (lastAfter prev [c]) b t := h.after
          obtain ⟨ps, hp, ht⟩ := hb.scanAfter_append
          refine ⟨.plain c :: ps, ?_, by rw [List.flatMap_cons, ht]; rfl⟩
          rw [List.cons_append, r.scanAfter_cons_of_none hf, lastAfter_cons]
          exact congrArg (.plain c :: ·) hp
      | some f =>
          obtain ⟨w, hw, hr, hlt, hb⟩ := h.exists_rest hf
          obtain ⟨ps, hp, ht⟩ := hb.scanAfter_append
          refine ⟨.found f.value f.taken :: ps, ?_, by rw [List.flatMap_cons, ht, hw]; rfl⟩
          rw [List.cons_append, r.scanAfter_cons_of_some hf, hr, hp, hw, lastAfter_append]
          rfl
termination_by b.length

/-- Where nothing is recognised in `o`, its characters are pieces by
themselves. -/
theorem scanAfter_append_plain {prev : Option Char} {o t : Text}
    (h : ∀ u v, o = u ++ v → v ≠ [] → r.find (lastAfter prev u) (v ++ t) = none) :
    r.scanAfter prev (o ++ t) = o.map .plain ++ r.scanAfter (lastAfter prev o) t := by
  induction o generalizing prev with
  | nil => rfl
  | cons c o ih =>
      have hn : r.find prev (c :: (o ++ t)) = none := h [] (c :: o) rfl (by simp)
      rw [List.cons_append, r.scanAfter_cons_of_none hn, ih, lastAfter_cons]
      · rfl
      · intro u v he hv
        have hc := h (c :: u) v (by rw [he]; rfl) hv
        rwa [lastAfter_cons] at hc

/-- What is recognised ends within a text whose last character is no part of it. -/
theorem EndsWithin.of_notMem {c : Char} (h : ∀ p s f, r.find p s = some f → c ∉ f.taken)
    (prev : Option Char) (b t : Text) : r.EndsWithin prev (b ++ [c]) t := by
  intro u v f hb hv hf
  have hc : c ∈ v := by
    have hl := congrArg List.getLast? hb
    rw [List.getLast?_concat, List.getLast?_append, List.getLast?_eq_some_getLast hv] at hl
    have hc : c = v.getLast hv := by simpa using hl
    exact hc ▸ List.getLast_mem hv
  cases List.append_eq_append_iff.mp (r.taken_append_rest hf) with
  | inl hw =>
      obtain ⟨w, hw, _⟩ := hw
      exact ⟨w, hw⟩
  | inr hw =>
      obtain ⟨w, hw, _⟩ := hw
      exact absurd (hw ▸ List.mem_append_left w hc) (h _ _ f hf)

/-! ## Scanning by parts -/

variable (r) in
/-- What is recognised at a place depends on nothing but what is taken there and on
whether a word runs into the place. -/
def IsLocal : Prop :=
  ∀ p q s f t, r.find p s = some f → isWordAt q = isWordAt p →
    r.find q (f.taken ++ t) = some ⟨f.value, f.taken, t⟩

/-- Where everything that is recognised ends within `b`, the text `b` is scanned as it
is by itself. -/
theorem IsLocal.scanAfter_append (hl : r.IsLocal) {prev : Option Char} {b t : Text}
    (h : r.EndsWithin prev b t) :
    r.scanAfter prev (b ++ t) = r.scanAfter prev b ++ r.scanAfter (lastAfter prev b) t := by
  match b with
  | [] => simp [scanAfter]
  | c :: b =>
      cases hf : r.find prev (c :: (b ++ t)) with
      | none =>
          have hn : r.find prev (c :: b) = none := by
            cases hg : r.find prev (c :: b) with
            | none => rfl
            | some g =>
                have ht := hl prev prev _ g (g.rest ++ t) hg rfl
                rw [← List.append_assoc, r.taken_append_rest hg, List.cons_append, hf] at ht
                contradiction
          have hb : r.EndsWithin (lastAfter prev [c]) b t := h.after
          have ih := hl.scanAfter_append hb
          rw [lastAfter_cons, lastAfter_nil] at ih
          rw [List.cons_append, r.scanAfter_cons_of_none hf, ih, r.scanAfter_cons_of_none hn,
            lastAfter_cons, List.cons_append]
      | some f =>
          obtain ⟨w, hw, hr, hlt, hb⟩ := h.exists_rest hf
          have hg : r.find prev (c :: b) = some ⟨f.value, f.taken, w⟩ := by
            rw [hw]
            exact hl prev prev _ f w hf rfl
          have ih := hl.scanAfter_append hb
          rw [List.cons_append, r.scanAfter_cons_of_some hf, hr, ih, r.scanAfter_cons_of_some hg,
            hw, lastAfter_append, List.cons_append]
termination_by b.length

/-! ## Scanning and searching -/

variable (r) in
/-- Nothing is recognised at a place within something recognised, whatever follows
it. -/
def IsDisjoint : Prop :=
  ∀ p s f u v t, r.find p s = some f → f.taken = u ++ v → u ≠ [] → v ≠ [] →
    r.find (lastAfter p u) (v ++ t) = none

/-- A search goes on behind what it has found. -/
theorem IsDisjoint.occurrencesAfter_of_some (hd : r.IsDisjoint) {prev : Option Char} {s : Text}
    {f : Found α} (hf : r.find prev s = some f) :
    occurrencesAfter r.find prev s =
      f :: occurrencesAfter r.find (lastAfter prev f.taken) f.rest := by
  cases ht : f.taken with
  | nil => exact absurd ht (r.taken_ne_nil hf)
  | cons c w =>
      have hs : s = c :: (w ++ f.rest) := by
        rw [← r.taken_append_rest hf, ht, List.cons_append]
      have hw : ∀ u v, w = u ++ v → v ≠ [] →
          r.find (lastAfter (some c) u) (v ++ f.rest) = none := by
        intro u v hu hv
        have ht' : f.taken = (c :: u) ++ v := by rw [ht, hu, List.cons_append]
        simpa using hd prev s f (c :: u) v f.rest hf ht' (by simp) hv
      rw [hs] at hf ⊢
      rw [occurrencesAfter, hf, occurrencesAfter_append hw, lastAfter_cons]
      rfl

/-- A scan finds everything that a search finds. -/
theorem IsDisjoint.values_scanAfter (hd : r.IsDisjoint) (prev : Option Char) (s : Text) :
    (r.scanAfter prev s).filterMap Piece.value? =
      (occurrencesAfter r.find prev s).map Found.value := by
  fun_induction scanAfter r prev s with
  | case1 => rfl
  | case2 prev c s f hf ih =>
      rw [r.getLast?_taken hf] at ih ⊢
      rw [hd.occurrencesAfter_of_some hf, List.map_cons, ← ih]
      rfl
  | case3 prev c s hf ih =>
      rw [occurrencesAfter, hf]
      exact ih

end Recognizer

end LuaReveal.Text
