import Mathlib.Data.Finset.Lattice.Fold
import Mathlib.Data.Finset.Range
import Mathlib.Data.Int.Order.Basic
import LuaReveal.Proofs.Layout.Placing

/-!
# LuaReveal.Proofs.Layout.Depth

The depth of a line in closed form, whether or not blocks are closed that were never
opened.  From one line to another the depth rises by what is opened and falls by what is
closed in between (`rise`); the depth of a line is the greatest rise to it from a line
that is not after it (`depth`).

A level cannot fall below zero, so what a line finds depends on the whole text before
it.  The induction is therefore over lines of which the first finds any level, and that
level counts as one more rise (`depthFrom`, `placedFrom_eq`).
-/

namespace LuaReveal.Layout

/-! ## Rises -/

/-- By how much line `i`, counted from zero, lies deeper than line `j` if no level falls
below zero in between: the lines from `j` on before `i` open levels, and the lines after
`j` up to `i` close them. -/
def rise (ls : List Text) (j i : Nat) : Int :=
  (ls.extract j i).countP opens - (ls.extract (j + 1) (i + 1)).countP closes

/-- The greatest rise to line `i` from a line that is not after it. -/
def depth (ls : List Text) (i : Nat) : Int :=
  (Finset.range (i + 1)).sup' Finset.nonempty_range_add_one fun j => rise ls j i

variable {ls : List Text} {line : Text} {i j : Nat}

theorem countP_closes_cons : (line :: ls).countP closes = ls.countP closes + closing line :=
  List.countP_cons

theorem countP_opens_cons : (line :: ls).countP opens = ls.countP opens + opening line :=
  List.countP_cons

@[simp] theorem rise_self (ls : List Text) (i : Nat) : rise ls i i = 0 := by
  simp [rise]

/-- Rises do not depend on the lines before them. -/
theorem rise_drop (ls : List Text) (k j i : Nat) :
    rise (ls.drop k) j i = rise ls (k + j) (k + i) := by
  simp only [rise, List.extract, List.drop_drop, Nat.add_assoc, Nat.add_sub_add_left]

theorem rise_cons_succ : rise (line :: ls) (j + 1) (i + 1) = rise ls j i := by
  have h := rise_drop (line :: ls) 1 j i
  rw [Nat.add_comm 1 j, Nat.add_comm 1 i] at h
  exact h.symm

/-- The rise to a line from the first one. -/
theorem rise_cons_zero :
    rise (line :: ls) 0 (i + 1) =
      opening line + (ls.take i).countP opens - (ls.take (i + 1)).countP closes := by
  simp only [rise, List.extract, List.drop_zero, List.drop_succ_cons, Nat.sub_zero,
    Nat.add_sub_cancel, List.take_succ_cons, countP_opens_cons]
  omega

/-! ## Depths -/

theorem rise_le_depth (ls : List Text) (h : j ≤ i) : rise ls j i ≤ depth ls i :=
  Finset.le_sup' (fun j => rise ls j i) (Finset.mem_range_succ_iff.mpr h)

theorem depth_le_iff {n : Int} : depth ls i ≤ n ↔ ∀ j ≤ i, rise ls j i ≤ n := by
  simp only [depth, Finset.sup'_le_iff, Finset.mem_range_succ_iff]

theorem depth_nonneg (ls : List Text) (i : Nat) : 0 ≤ depth ls i := by
  have h := rise_le_depth ls (Nat.le_refl i)
  rwa [rise_self] at h

@[simp] theorem depth_zero (ls : List Text) : depth ls 0 = 0 := by
  simp [depth]

/-- Lines before a text, whatever they close, take nothing off its depths. -/
theorem depth_drop_le (ls : List Text) (k i : Nat) : depth (ls.drop k) i ≤ depth ls (k + i) := by
  rw [depth_le_iff]
  intro j hj
  rw [rise_drop]
  exact rise_le_depth ls (Nat.add_le_add_left hj k)

/-- A rise to a line behind another starts at that one or later. -/
theorem depth_cons_succ :
    depth (line :: ls) (i + 1) = max (rise (line :: ls) 0 (i + 1)) (depth ls i) := by
  apply Int.le_antisymm
  · rw [depth_le_iff]
    intro j hj
    cases j with
    | zero => exact Int.le_max_left _ _
    | succ j =>
        rw [rise_cons_succ]
        exact Int.le_trans (rise_le_depth ls (Nat.le_of_succ_le_succ hj)) (Int.le_max_right _ _)
  · apply Int.max_le.mpr
    constructor
    · exact rise_le_depth _ (Nat.zero_le _)
    · have h := depth_drop_le (line :: ls) 1 i
      rwa [Nat.add_comm] at h

/-! ## Depths from a level -/

/-- The depth of line `i` if the first line finds `level`: what is left of the level at
the line, or the greatest rise to it. -/
def depthFrom (level : Nat) (ls : List Text) (i : Nat) : Int :=
  max (level + (ls.take i).countP opens - (ls.take (i + 1)).countP closes) (depth ls i)

theorem depthFrom_cons_zero (level : Nat) :
    depthFrom level (line :: ls) 0 = (level - closing line : Nat) := by
  simp only [depthFrom, depth_zero, List.take_zero, List.countP_nil, Nat.zero_add,
    List.take_succ_cons, countP_closes_cons]
  omega

/-- The second line finds the level that the first leaves. -/
theorem depthFrom_cons_succ (level : Nat) :
    depthFrom level (line :: ls) (i + 1) =
      depthFrom (level - closing line + opening line) ls i := by
  simp only [depthFrom, depth_cons_succ, rise_cons_zero, List.take_succ_cons, countP_closes_cons,
    countP_opens_cons]
  omega

/-- Lines that find a level come to stand at their depths from it. -/
theorem placedFrom_eq (level : Nat) (ls : List Text) :
    placedFrom level ls = ls.mapIdx fun i line => ((depthFrom level ls i).toNat, line) := by
  induction ls generalizing level with
  | nil => rfl
  | cons line ls ih =>
      rw [placedFrom, ih, List.mapIdx_cons, depthFrom_cons_zero, Int.toNat_natCast]
      simp only [depthFrom_cons_succ]

/-- No level counts for nothing. -/
theorem depthFrom_zero (ls : List Text) (i : Nat) : depthFrom 0 ls i = depth ls i := by
  apply max_eq_right
  have hc : (ls.extract 1 (i + 1)).countP closes ≤ (ls.take (i + 1)).countP closes := by
    rw [List.extract, ← List.drop_take]
    exact (List.drop_sublist 1 _).countP_le
  have hr : rise ls 0 i = (ls.take i).countP opens - (ls.extract 1 (i + 1)).countP closes := rfl
  have hd := rise_le_depth ls (Nat.zero_le i)
  omega

/-- **Depth as a greatest rise**: a text is indented anew by writing its lines of code in
order, each at the greatest rise to it from a line that is not after it.  Lines before
others, whatever they close, never make these less deep. -/
theorem reindent_eq_joinLines_depth (unit source : Text) :
    let ls := codeLines source
    reindent unit source =
        Text.joinLines (ls.mapIdx fun i line => Text.repeated (depth ls i).toNat unit ++ line) ∧
      (∀ i, 0 ≤ depth ls i) ∧
      ∀ k i, depth (ls.drop k) i ≤ depth ls (k + i) := by
  intro ls
  have hp : (placedFrom 0 ls).map (LineBuffer.indented unit) =
      ls.mapIdx fun i line => Text.repeated (depth ls i).toNat unit ++ line := by
    simp only [placedFrom_eq, depthFrom_zero, List.mapIdx_eq_zipIdx_map, List.map_map]
    rfl
  refine ⟨?_, depth_nonneg ls, depth_drop_le ls⟩
  rw [reindent_eq]
  exact congrArg Text.joinLines hp

/-- Closers without openers leave a block after them as deep as it is by itself. -/
example :
    let ls := ["end".toList, "until x".toList, "do".toList, "f()".toList, "end".toList]
    (List.range 5).map (depth ls) = [0, 0, 0, 1, 0] := by
  decide +kernel

end LuaReveal.Layout
