import BoundedVm.Heap.Compare
import Mathlib.Tactic.Common

/-! # One pair of a comparison

What the comparison finds out about a pair of items without looking into structs. `Item.Alike` says
what equal leaves have in common and `Heap.Differ` what tells two items apart at their tops;
`pairStep_spec` says for every outcome of `Heap.pairStep` which of these it means. -/

namespace BoundedVm

/-- A result settles a proposition: a verdict is right, and a refusal comes from a resource limit. -/
def Settles (P : Prop) : Except ValueFault Bool → Prop
  | .ok true => P
  | .ok false => ¬ P
  | .error e => e.isResourceLimit = true

@[simp] theorem settles_ok_iff {P : Prop} {b : Bool} : Settles P (.ok b) ↔ (b = true ↔ P) := by
  cases b <;> simp [Settles]

@[simp] theorem settles_error_iff {P : Prop} {e : ValueFault} :
    Settles P (.error e) ↔ e.isResourceLimit = true := Iff.rfl

/-! ## Leaves -/

namespace Item

/-- Whether two items other than structs show the same content; arrays show their identity. -/
def Alike : Item → Item → Prop
  | null, null => True
  | boolean p, boolean q => p = q
  | integer _ i, integer _ j => i.value = j.value
  | bytes _ x, bytes _ y => x = y
  | pointer s p, pointer t q => s = t ∧ p = q
  | array c, array d => c = d
  | _, _ => False

instance (a b : Item) : Decidable (a.Alike b) := by
  unfold Alike
  split <;> infer_instance

theorem Alike.isStruct_eq_false {a b : Item} (hab : a.Alike b) : a.isStruct = false := by
  cases a with
  | struct s => exact hab.elim
  | _ => rfl

/-- The comparison of two byte strings settles whether they have the same content. -/
theorem settles_bytesEqual (limits : Limits) (m n : Nat) (x y : List UInt8) :
    Settles (x = y) (bytesEqual limits m x n y) := by
  unfold bytesEqual
  by_cases hsame : bytes m x = bytes n y
  · rw [if_pos hsame]
    exact (bytes.inj hsame).2
  · rw [if_neg hsame]
    by_cases hlong : x.length > limits.maxComparableSize.toNat
        ∨ y.length > limits.maxComparableSize.toNat
    · rw [if_pos hlong]
      rfl
    · rw [if_neg hlong]
      simp

/-- The comparison of two leaves settles whether they are alike. -/
theorem settles_leafEquals (limits : Limits) {a b : Item} (ha : a.isStruct = false)
    (hb : b.isStruct = false) : Settles (a.Alike b) (a.leafEquals limits b) := by
  cases a <;> cases b <;> simp_all [leafEquals, Alike, isStruct, settles_bytesEqual]

end Item

/-! ## Pairs -/

namespace Heap

/-- Whether two items differ visibly at their tops. -/
def Differ (h : Heap) : Item → Item → Prop
  | .struct s, .struct t => (h.items s).size ≠ (h.items t).size
  | a, b => ¬ a.Alike b

instance (h : Heap) (a b : Item) : Decidable (h.Differ a b) := by
  unfold Differ
  split <;> infer_instance

/-- A struct and an item that is none differ. -/
theorem differ_of_isStruct_ne (h : Heap) {a b : Item} (hab : a.isStruct ≠ b.isStruct) :
    h.Differ a b := by
  cases a <;> cases b <;> simp_all [Differ, Item.Alike, Item.isStruct]

theorem differ_iff_of_isStruct_eq_false (h : Heap) {a b : Item} (ha : a.isStruct = false) :
    h.Differ a b ↔ ¬ a.Alike b := by
  cases a with
  | struct s => simp [Item.isStruct] at ha
  | _ => exact Iff.rfl

/-- **What the outcome of one turn means.** -/
theorem pairStep_spec (h : Heap) (limits : Limits) (a b : Item) :
    match h.pairStep limits a b with
    | .equal => a = b ∨ a.Alike b
    | .descend s t =>
      a = .struct s ∧ b = .struct t ∧ s ≠ t ∧ (h.items s).size = (h.items t).size
    | .differ => h.Differ a b
    | .refuse e => e.isResourceLimit = true := by
  by_cases hkind : a.isStruct = b.isStruct
  · cases ha : a.isStruct with
    | false =>
      have hb : b.isStruct = false := hkind.symm.trans ha
      rw [pairStep_of_isStruct_eq_false h limits ha hb]
      by_cases hab : a = b
      · simp [hab]
      · -- different references to leaves, which are compared by content
        have hleaf := Item.settles_leafEquals limits ha hb
        rw [if_neg hab]
        cases hr : a.leafEquals limits b with
        | error e => simpa [hr] using hleaf
        | ok equal =>
          rw [hr, settles_ok_iff] at hleaf
          cases equal with
          | true => exact .inr (hleaf.mp rfl)
          | false => exact (differ_iff_of_isStruct_eq_false h ha).mpr fun hd => by simp_all
    | true =>
      obtain ⟨s, rfl⟩ := Item.isStruct_iff.1 ha
      obtain ⟨t, rfl⟩ := Item.isStruct_iff.1 (hkind.symm.trans ha)
      rw [pairStep_struct_struct]
      by_cases hst : s = t
      · simp [hst]
      · by_cases hsize : (h.items s).size = (h.items t).size
        · simp [hst, hsize]
        · simp [hst, hsize, Differ]
  · -- a struct and a leaf
    rw [pairStep_of_isStruct_ne h limits hkind]
    exact h.differ_of_isStruct_ne hkind

end Heap

end BoundedVm
