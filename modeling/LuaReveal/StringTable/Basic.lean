import LuaReveal.Literal
import LuaReveal.Escape.Mnemonic
import LuaReveal.Text.Decimal

/-!
# LuaReveal.StringTable.Basic

A string table: the literals that a source text keeps in one table under a name,
and refers to by their position.
-/

namespace LuaReveal

/-- A literal of a string table. -/
structure Entry where
  /-- The position in the table, from one on. -/
  index : Nat
  /-- How the entry is referred to, as in `name[1]`. -/
  key : Text
  /-- The body as the declaration writes it. -/
  raw : Text
  /-- The decoded body with its mnemonic escapes resolved, as it is shown. -/
  value : Text
  /-- The literal that takes the place of a reference. -/
  literal : Text
  deriving DecidableEq

/-- The entry of a table `name` at a position, declared with a body. -/
def Entry.ofBody (policy : Escape.Policy) (name : Text) (index : Nat) (body : Text) : Entry where
  index := index
  key := name ++ '[' :: Text.ofNat index ++ [']']
  raw := body
  value := Escape.resolve (Escape.decode policy .bare body)
  literal := Literal.requote policy body

/-- A string table. One without a name was never declared. -/
structure StringTable where
  name : Option Text
  entries : List Entry
  deriving DecidableEq

namespace StringTable

/-- The table of a source text that declares none. -/
def empty : StringTable := ⟨none, []⟩

/-- The number of entries. -/
def size (t : StringTable) : Nat :=
  t.entries.length

/-- The entry at a position; positions count from one. -/
def get? (t : StringTable) : Nat → Option Entry
  | 0 => none
  | n + 1 => t.entries[n]?

@[simp] theorem get?_zero (t : StringTable) : t.get? 0 = none := rfl

@[simp] theorem get?_succ (t : StringTable) (n : Nat) : t.get? (n + 1) = t.entries[n]? := rfl

/-- The positions of a table are those from one to its size. -/
theorem isSome_get?_iff {t : StringTable} {n : Nat} :
    (t.get? n).isSome ↔ 1 ≤ n ∧ n ≤ t.size := by
  cases n with
  | zero => simp
  | succ n =>
    rw [get?_succ, size]
    cases h : t.entries[n]? with
    | none =>
      have := List.getElem?_eq_none_iff.mp h
      simp only [Option.isSome_none, Bool.false_eq_true, false_iff]
      omega
    | some e =>
      have := (List.getElem?_eq_some_iff.mp h).1
      simp only [Option.isSome_some, true_iff]
      omega

/-- The table `name` declared with the bodies of its literals. -/
def ofBodies (policy : Escape.Policy) (name : Text) (bodies : List Text) : StringTable where
  name := some name
  entries := bodies.mapIdx fun i body => Entry.ofBody policy name (i + 1) body

@[simp] theorem size_ofBodies (policy : Escape.Policy) (name : Text) (bodies : List Text) :
    (ofBodies policy name bodies).size = bodies.length := by
  simp [ofBodies, size]

end StringTable

end LuaReveal
