import LuaReveal.Naming.Alias
import Mathlib.Data.List.Nodup
import Mathlib.Data.List.Perm.Subperm
import Mathlib.Data.PFun
import Mathlib.Order.Nat

/-!
# LuaReveal.Proofs.Naming.Search

The search for a free alias.  It tries the first choice of the letter, and then the
first choice with the numbers from two on, and goes on for as long as candidates are
taken.  `searchFrom` does so without a bound, and counts the candidates.

The candidates differ from one another, so of one more than aliases are taken one is
free (`exists_isLeast_freeNumbers`), whatever the aliases look like.  The search ends
there, and gives the fresh alias, which is looked for among so many numbers only
(`search_eq_freshAlias`).
-/

namespace LuaReveal.Naming

section Numbered

variable {base : Text} {m n : Nat}

/-- Different numbers make different candidates. -/
theorem numbered_injective (h : numbered base m = numbered base n) : m = n :=
  Text.ofNat_injective (List.cons.inj (List.append_cancel_left h)).2

theorem numbered_ne_base (base : Text) (n : Nat) : numbered base n ≠ base := by
  simp [numbered]

end Numbered

section Search

variable {taken : List Text} {base : Text} {n tried : Nat}

/-! ## The search -/

/-- One turn of the search among the numbered candidates, from the next number and how
many candidates were tried: it ends with the candidate if this is free, and goes on to
the number after it if not. -/
def tryNumber (taken : List Text) (base : Text) : Nat × Nat → (Text × Nat) ⊕ (Nat × Nat)
  | (n, tried) =>
    if taken.contains (numbered base n) then .inr (n + 1, tried + 1)
    else .inl (numbered base n, tried + 1)

/-- The search among the candidates from a number on, turn after turn: the first free
one, and how many were tried with it.  It has no value if it has no end. -/
def searchFrom (taken : List Text) (base : Text) (n tried : Nat) : Part (Text × Nat) :=
  PFun.fix (PFun.lift (tryNumber taken base)) (n, tried)

/-- The search for an alias of a letter, and how many candidates were tried. -/
def search (taken : List Text) (letter : Char) : Part (Text × Nat) :=
  if taken.contains (baseAlias letter) then
    searchFrom taken (baseAlias letter) 2 1
  else
    .some (baseAlias letter, 1)

/-- A taken candidate leads to the next one. -/
theorem searchFrom_of_mem (h : numbered base n ∈ taken) :
    searchFrom taken base n tried = searchFrom taken base (n + 1) (tried + 1) := by
  have ht : tryNumber taken base (n, tried) = .inr (n + 1, tried + 1) :=
    if_pos (List.contains_iff_mem.mpr h)
  exact PFun.fix_fwd_eq (Part.mem_some_iff.mpr ht.symm)

/-- A free candidate ends the search. -/
theorem searchFrom_of_notMem (h : numbered base n ∉ taken) :
    searchFrom taken base n tried = .some (numbered base n, tried + 1) := by
  have ht : tryNumber taken base (n, tried) = .inl (numbered base n, tried + 1) :=
    if_neg (mt List.contains_iff_mem.mp h)
  exact Part.eq_some_iff.mpr (PFun.fix_stop (Part.mem_some_iff.mpr ht.symm))

/-- Taken candidates are tried one after another up to a free one. -/
theorem searchFrom_add {d : Nat} (ht : ∀ i < d, numbered base (n + i) ∈ taken)
    (hf : numbered base (n + d) ∉ taken) :
    searchFrom taken base n tried = .some (numbered base (n + d), tried + d + 1) := by
  induction d generalizing n tried with
  | zero => exact searchFrom_of_notMem hf
  | succ d ih =>
      have hn : n + 1 + d = n + (d + 1) := by omega
      have ht' : ∀ i < d, numbered base (n + 1 + i) ∈ taken := fun i hi => by
        have h := ht (i + 1) (by omega)
        rwa [show n + (i + 1) = n + 1 + i by omega] at h
      have h₀ : numbered base n ∈ taken := ht 0 (by omega)
      rw [searchFrom_of_mem h₀, ih ht' (hn ▸ hf), hn]
      congr 2
      omega

/-! ## Free numbers -/

/-- The numbers from two on with which the base is free. -/
def freeNumbers (taken : List Text) (base : Text) : Set Nat :=
  {n | 2 ≤ n ∧ numbered base n ∉ taken}

/-- If the base is taken, one of the numbers from two to one more than the count of
taken aliases is free: the base and the candidates with these numbers are too many. -/
theorem exists_mem_freeNumbers (hb : base ∈ taken) :
    ∃ n ∈ freeNumbers taken base, n ≤ taken.length + 1 := by
  by_contra hn
  have ht : ∀ n ∈ List.range' 2 taken.length, numbered base n ∈ taken := by
    intro n hr
    obtain ⟨hl, hu⟩ := List.mem_range'_1.mp hr
    by_contra hf
    exact hn ⟨n, ⟨hl, hf⟩, by omega⟩
  let candidates := base :: (List.range' 2 taken.length).map (numbered base)
  have hd : candidates.Nodup := by
    refine List.nodup_cons.mpr ⟨fun hm => ?_, ?_⟩
    · obtain ⟨n, _, he⟩ := List.mem_map.mp hm
      exact numbered_ne_base base n he
    · exact List.Nodup.map (fun _ _ => numbered_injective) List.nodup_range'
  have hs : candidates ⊆ taken := by
    refine List.cons_subset.mpr ⟨hb, fun word hm => ?_⟩
    obtain ⟨n, hr, rfl⟩ := List.mem_map.mp hm
    exact ht n hr
  have hlen : candidates.length ≤ taken.length := (List.subperm_of_subset hd hs).length_le
  have hc : candidates.length = taken.length + 1 := by simp [candidates]
  omega

theorem exists_isLeast_freeNumbers (hb : base ∈ taken) :
    ∃ n ≤ taken.length + 1, IsLeast (freeNumbers taken base) n := by
  classical
  obtain ⟨m, hm, hle⟩ := exists_mem_freeNumbers hb
  have he : ∃ n, n ∈ freeNumbers taken base := ⟨m, hm⟩
  exact ⟨Nat.find he, (Nat.find_min' he hm).trans hle, Nat.isLeast_find he⟩

section Least

variable (hn : IsLeast (freeNumbers taken base) n)
include hn

/-- Below the least free number all are taken. -/
theorem numbered_mem_of_lt_least {m : Nat} (h : 2 ≤ m) (hm : m < n) :
    numbered base m ∈ taken := by
  by_contra hf
  have hle : n ≤ m := hn.2 ⟨h, hf⟩
  omega

/-- The search among the numbers ends at the least free one, when as many candidates
were tried as the number says. -/
theorem searchFrom_two : searchFrom taken base 2 1 = .some (numbered base n, n) := by
  obtain ⟨d, rfl⟩ := Nat.exists_eq_add_of_le hn.1.1
  have ht : ∀ i < d, numbered base (2 + i) ∈ taken := fun i hi =>
    numbered_mem_of_lt_least hn (by omega) (by omega)
  rw [searchFrom_add ht hn.1.2]
  congr 2
  omega

/-- The least free number is among those that are looked at for a fresh alias. -/
theorem firstFree_eq_numbered (hb : base ∈ taken) (hle : n ≤ taken.length + 1) :
    firstFree taken base = numbered base n := by
  have hf : ((List.range' 2 taken.length).find? fun m => numbered base m ∉ taken) = some n := by
    refine List.find?_range'_eq_some.mpr ⟨by simpa using hn.1.2, ?_, fun m hm hlt => ?_⟩
    · exact List.mem_range'_1.mpr ⟨hn.1.1, by omega⟩
    · simpa using numbered_mem_of_lt_least hn hm hlt
  rw [firstFree, if_pos hb, hf]

end Least

/-! ## The end of the search -/

/-- **The search for a free alias ends**: whatever aliases are taken, at most one
candidate more than there are of them is tried, and what is found is the fresh alias of
the letter, which is free.  That is the first choice if this is free, and otherwise the
first choice with the least number from two on that makes it free. -/
theorem search_eq_freshAlias (taken : List Text) (letter : Char) :
    ∃ tried ≤ taken.length + 1,
      search taken letter = .some (freshAlias taken letter, tried) ∧
      freshAlias taken letter ∉ taken ∧
      (baseAlias letter ∉ taken ∧ tried = 1 ∧ freshAlias taken letter = baseAlias letter ∨
        baseAlias letter ∈ taken ∧ IsLeast (freeNumbers taken (baseAlias letter)) tried ∧
          freshAlias taken letter = numbered (baseAlias letter) tried) := by
  by_cases hb : baseAlias letter ∈ taken
  · obtain ⟨n, hle, hn⟩ := exists_isLeast_freeNumbers hb
    have hf : freshAlias taken letter = numbered (baseAlias letter) n :=
      firstFree_eq_numbered hn hb hle
    refine ⟨n, hle, ?_, hf ▸ hn.1.2, .inr ⟨hb, hn, hf⟩⟩
    rw [search, if_pos (List.contains_iff_mem.mpr hb), searchFrom_two hn, hf]
  · have hf : freshAlias taken letter = baseAlias letter := if_neg hb
    refine ⟨1, by omega, ?_, hf ▸ hb, .inl ⟨hb, rfl, hf⟩⟩
    rw [search, if_neg (mt List.contains_iff_mem.mp hb), hf]

/-- Aliases that look numbered are passed over. -/
example :
    freshAlias ["element_3".toList, "element".toList, "element_2".toList] 'e' =
      "element_4".toList := by
  decide +kernel

end Search

end LuaReveal.Naming
