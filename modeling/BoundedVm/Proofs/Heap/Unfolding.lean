import BoundedVm.Proofs.Heap.Path
import BoundedVm.Proofs.Heap.Places

/-! # The size of an unfolding

The unfolding of an item through structs has one place for every path from it, so that what is shared is
counted as often as it is met, and what lies on a cycle infinitely often. `Heap.countFrom` counts the
places that hold an item with a property, and `Heap.countBelow` those but the first.

* `countFrom_of_holds`, `countFrom_of_not_holds`: the count of an item is the sum of the counts of its
  elements, and one more if it has the property itself.
* `countBelow_eq_top_of_cycle`: a struct that can be reached from itself occurs infinitely often. -/

namespace BoundedVm

namespace Heap

/-- The paths through structs that lead from an item to one with a property. -/
def pathsTo (h : Heap) (P : Item → Prop) (x : Item) : Set (List Nat) :=
  {path | ∃ y, h.itemAt? x path = some y ∧ P y}

/-- The number of places in the unfolding of an item that hold an item with a property. -/
noncomputable def countFrom (h : Heap) (P : Item → Prop) (x : Item) : ℕ∞ :=
  (h.pathsTo P x).encard

/-- The number of places below an item that hold an item with a property. -/
noncomputable def countBelow (h : Heap) (P : Item → Prop) (x : Item) : ℕ∞ :=
  {path | path ≠ [] ∧ path ∈ h.pathsTo P x}.encard

/-- The number of places in the unfoldings of some items that hold an item with a property. -/
noncomputable def countAll (h : Heap) (P : Item → Prop) (xs : List Item) : ℕ∞ :=
  (xs.map (h.countFrom P)).sum

variable {h : Heap} {P : Item → Prop}

@[simp] theorem countAll_nil : h.countAll P [] = 0 := rfl

@[simp] theorem countAll_cons (x : Item) (xs : List Item) :
    h.countAll P (x :: xs) = h.countFrom P x + h.countAll P xs := by
  simp [countAll]

@[simp] theorem countAll_append (xs ys : List Item) :
    h.countAll P (xs ++ ys) = h.countAll P xs + h.countAll P ys := by
  simp [countAll]

/-! ## Paths by their first index -/

/-- The paths whose first index chooses one of some items. -/
def pathsInto (h : Heap) (P : Item → Prop) (xs : List Item) : Set (List Nat) :=
  {path | ∃ i rest, path = i :: rest ∧ ∃ x, xs[i]? = some x ∧ rest ∈ h.pathsTo P x}

theorem encard_pathsInto (xs : List Item) : (h.pathsInto P xs).encard = h.countAll P xs :=
  encard_pathsThrough xs

/-- A path that is not empty chooses an element first. -/
theorem setOf_ne_nil_eq_pathsInto (x : Item) :
    {path | path ≠ [] ∧ path ∈ h.pathsTo P x} = h.pathsInto P (h.children x) := by
  ext path
  constructor
  · rintro ⟨hne, z, hz, hP⟩
    cases path with
    | nil => exact absurd rfl hne
    | cons i rest =>
      obtain ⟨y, hy, hrest⟩ := itemAt?_cons_eq_some_iff.1 hz
      exact ⟨i, rest, rfl, y, hy, z, hrest, hP⟩
  · rintro ⟨i, rest, rfl, y, hy, z, hrest, hP⟩
    exact ⟨List.cons_ne_nil i rest, z, itemAt?_cons_eq_some_iff.2 ⟨y, hy, hrest⟩, hP⟩

/-! ## The count of an item -/

/-- What lies below an item is what its elements unfold to. -/
theorem countBelow_eq (x : Item) : h.countBelow P x = h.countAll P (h.children x) := by
  rw [countBelow, setOf_ne_nil_eq_pathsInto, encard_pathsInto]

/-- An item with the property adds one to what lies below it. -/
theorem countFrom_of_holds {x : Item} (hx : P x) :
    h.countFrom P x = 1 + h.countAll P (h.children x) := by
  -- the empty path leads to the item itself, all others to what lies below it
  have hsplit : h.pathsTo P x = {[]} ∪ {path | path ≠ [] ∧ path ∈ h.pathsTo P x} := by
    ext path
    by_cases hpath : path = []
    · subst hpath
      exact ⟨fun _ => .inl rfl, fun _ => ⟨x, rfl, hx⟩⟩
    · simp [hpath]
  have hdisjoint : Disjoint {[]} {path | path ≠ [] ∧ path ∈ h.pathsTo P x} := by
    rw [Set.disjoint_singleton_left]
    exact fun hmem => hmem.1 rfl
  rw [countFrom, hsplit, Set.encard_union_eq hdisjoint, Set.encard_singleton]
  exact congrArg (1 + ·) (countBelow_eq x)

/-- An item without the property counts for what lies below it. -/
theorem countFrom_of_not_holds {x : Item} (hx : ¬ P x) :
    h.countFrom P x = h.countAll P (h.children x) := by
  have hall : h.pathsTo P x = {path | path ≠ [] ∧ path ∈ h.pathsTo P x} := by
    ext path
    refine ⟨fun hmem => ⟨?_, hmem⟩, fun hmem => hmem.2⟩
    rintro rfl
    obtain ⟨y, hy, hP⟩ := hmem
    cases hy
    exact hx hP
  rw [countFrom, hall]
  exact countBelow_eq x

/-! ## Cycles -/

/-- A round that leads back to an item can be made any number of times. -/
theorem itemAt?_flatten_replicate {x : Item} {round : List Nat}
    (hround : h.itemAt? x round = some x) (n : Nat) :
    h.itemAt? x (List.replicate n round).flatten = some x := by
  induction n with
  | zero => rfl
  | succ n ih =>
    rw [List.replicate_succ, List.flatten_cons, itemAt?_append, hround]
    exact ih

/-- Below an item from which a cycle can be reached there are infinitely many places for each item on
the cycle. -/
theorem countBelow_eq_top_of_cycle {x y : Item} {path round : List Nat}
    (hpath : h.itemAt? x path = some y) (hne : round ≠ [])
    (hround : h.itemAt? y round = some y) (hy : P y) : h.countBelow P x = ⊤ := by
  let around : Nat → List Nat := fun n => path ++ (List.replicate (n + 1) round).flatten
  have hinjective : Function.Injective around := by
    -- more rounds make a longer path
    intro m n hmn
    have hlen := congrArg List.length hmn
    simpa [around, hne] using hlen
  have hmem : ∀ n, around n ≠ [] ∧ around n ∈ h.pathsTo P x := by
    intro n
    refine ⟨?_, y, ?_, hy⟩
    · simp [around, hne]
    · show h.itemAt? x (path ++ _) = some y
      rw [itemAt?_append, hpath]
      exact itemAt?_flatten_replicate hround (n + 1)
  exact (Set.infinite_of_injective_forall_mem hinjective hmem).encard_eq

end Heap

end BoundedVm
