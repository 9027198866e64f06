import Mathlib.Algebra.BigOperators.Group.List.Basic
import Mathlib.Data.Set.Card

/-! # Counting places by their first index

A place in a tree of ordered children is a path of indices. The places below a list of entries are those
of the first entry and those of the rest, told apart by their first index, so that their number is the
sum of the numbers below each entry. `encard_pathsThrough` says so for whatever counts as a place of an
entry. -/

namespace BoundedVm

variable {α : Type}

/-- The paths whose first index chooses one of some entries, and that go on by a place of the entry. -/
def pathsThrough (places : α → Set (List Nat)) (xs : List α) : Set (List Nat) :=
  {path | ∃ i rest, path = i :: rest ∧ ∃ x, xs[i]? = some x ∧ rest ∈ places x}

/-- The path that chooses the next entry instead of the one that it chooses. -/
def shiftPath : List Nat → List Nat
  | [] => []
  | i :: rest => (i + 1) :: rest

theorem shiftPath_injective : Function.Injective shiftPath := by
  intro p q hpq
  cases p with
  | nil => cases q with
    | nil => rfl
    | cons j q => simp [shiftPath] at hpq
  | cons i p => cases q with
    | nil => simp [shiftPath] at hpq
    | cons j q => simpa [shiftPath] using hpq

variable {places : α → Set (List Nat)}

/-- The paths through a list begin with zero, or they are shifted paths through its tail. -/
theorem pathsThrough_cons (x : α) (xs : List α) :
    pathsThrough places (x :: xs)
      = List.cons 0 '' places x ∪ shiftPath '' pathsThrough places xs := by
  ext path
  constructor
  · rintro ⟨i, rest, rfl, y, hy, hrest⟩
    -- index zero chooses the head, and any other one of the tail by its predecessor
    cases i with
    | zero =>
      obtain rfl : x = y := by simpa using hy
      exact .inl ⟨rest, hrest, rfl⟩
    | succ i => exact .inr ⟨i :: rest, ⟨i, rest, rfl, y, by simpa using hy, hrest⟩, rfl⟩
  · rintro (⟨rest, hrest, rfl⟩ | ⟨_, ⟨i, rest, rfl, y, hy, hrest⟩, rfl⟩)
    · exact ⟨0, rest, rfl, x, rfl, hrest⟩
    · exact ⟨i + 1, rest, rfl, y, by simpa using hy, hrest⟩

/-- A path that begins with zero is no shifted one. -/
theorem notMem_shiftPath_of_mem_cons_zero (s : Set (List Nat)) (xs : List α) :
    ∀ path ∈ List.cons 0 '' s, path ∉ shiftPath '' pathsThrough places xs := by
  rintro _ ⟨rest, -, rfl⟩ ⟨_, ⟨i, rest', rfl, -⟩, heq⟩
  simp [shiftPath] at heq

/-- **The number of places below a list** is the sum of the numbers of places of its entries. -/
theorem encard_pathsThrough (xs : List α) :
    (pathsThrough places xs).encard = (xs.map fun x => (places x).encard).sum := by
  induction xs with
  | nil =>
    have hnone : pathsThrough places [] = ∅ := by
      ext path
      simp [pathsThrough]
    rw [hnone, Set.encard_empty, List.map_nil, List.sum_nil]
  | cons x xs ih =>
    rw [pathsThrough_cons,
      Set.encard_union_eq (Set.disjoint_left.mpr (notMem_shiftPath_of_mem_cons_zero _ xs)),
      List.cons_injective.encard_image, shiftPath_injective.encard_image, ih, List.map_cons,
      List.sum_cons]

/-- One unit of a budget pays for one place. -/
theorem one_add_le_succ_iff {n : ℕ∞} {k : Nat} : 1 + n ≤ ((k + 1 : Nat) : ℕ∞) ↔ n ≤ k := by
  rw [Nat.cast_succ, add_comm, ENat.add_le_add_iff_right ENat.one_ne_top]

end BoundedVm
