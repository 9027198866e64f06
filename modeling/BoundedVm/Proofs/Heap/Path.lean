import BoundedVm.Heap.Basic
import Mathlib.Data.List.Basic
import Mathlib.Tactic.Common

/-! # Paths through structs

A path is a list of indices. `Heap.itemAt?` follows it from an item through the elements of structs;
arrays and leaves end a path, for they are not looked into. Over a cyclic heap an item may have paths
of every length, and over a shared one many paths to the same item. -/

namespace BoundedVm

namespace Heap

/-- The elements of a struct; no other item is looked into. -/
def children (h : Heap) : Item → List Item
  | .struct s => (h.items s).toList
  | _ => []

/-- The item that a path leads to. -/
def itemAt? (h : Heap) : Item → List Nat → Option Item
  | x, [] => some x
  | x, i :: path => (h.children x)[i]?.bind fun y => itemAt? h y path

variable {h : Heap}

@[simp] theorem children_struct (s : ContainerId) :
    h.children (.struct s) = (h.items s).toList := rfl

theorem children_of_isStruct_eq_false {x : Item} (hx : x.isStruct = false) :
    h.children x = [] := by
  cases x with
  | struct s => simp [Item.isStruct] at hx
  | _ => rfl

@[simp] theorem itemAt?_nil (x : Item) : h.itemAt? x [] = some x := rfl

theorem itemAt?_cons (x : Item) (i : Nat) (path : List Nat) :
    h.itemAt? x (i :: path) = (h.children x)[i]?.bind fun y => h.itemAt? y path := rfl

/-- A path that begins with an index leads on from the element at the index. -/
theorem itemAt?_cons_eq_some_iff {x z : Item} {i : Nat} {path : List Nat} :
    h.itemAt? x (i :: path) = some z
      ↔ ∃ y, (h.children x)[i]? = some y ∧ h.itemAt? y path = some z := by
  rw [itemAt?_cons, Option.bind_eq_some_iff]

/-- A path in two parts leads on from where its first part leads. -/
theorem itemAt?_append (x : Item) (p q : List Nat) :
    h.itemAt? x (p ++ q) = (h.itemAt? x p).bind fun y => h.itemAt? y q := by
  induction p generalizing x with
  | nil => rfl
  | cons i p ih =>
    rw [List.cons_append, itemAt?_cons, itemAt?_cons, Option.bind_assoc]
    congr 1
    funext y
    exact ih y

/-- Nothing lies below a leaf. -/
theorem itemAt?_of_isStruct_eq_false {x : Item} (hx : x.isStruct = false) (path : List Nat) :
    h.itemAt? x path = if path = [] then some x else none := by
  cases path with
  | nil => rfl
  | cons i path => rw [itemAt?_cons, children_of_isStruct_eq_false hx]; rfl

/-- A path ends with an index exactly where it leads through a struct to one of its elements. -/
theorem itemAt?_append_singleton_eq_some_iff {x z : Item} {path : List Nat} {i : Nat} :
    h.itemAt? x (path ++ [i]) = some z
      ↔ ∃ d, h.itemAt? x path = some (.struct d) ∧ (h.items d)[i]? = some z := by
  rw [itemAt?_append, Option.bind_eq_some_iff]
  constructor
  · rintro ⟨y, hy, hz⟩
    obtain ⟨z', hz', heq⟩ := itemAt?_cons_eq_some_iff.1 hz
    cases heq
    cases y with
    | struct d => exact ⟨d, hy, by simpa using hz'⟩
    | _ => simp [children] at hz'
  · rintro ⟨d, hd, hz⟩
    exact ⟨.struct d, hd, itemAt?_cons_eq_some_iff.2 ⟨z, by simpa using hz, rfl⟩⟩

end Heap

end BoundedVm
