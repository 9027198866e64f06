import BoundedVm.Proofs.Comparison.Pruning
import Mathlib.Data.List.Zip

/-! # Comparisons the other way round

Neither the comparison of two leaves nor the walk over pairs tells its left side from its right: the
pairs the other way round have the same verdict or the same refusal, to the number of bytes named in
it.

* `comparePairs_map_swap`: the walk over pairs, step by step.
* `tryEquals_eq`: what the equality without a walk refuses, and what it is otherwise.
* `equals_symmetric`: both equalities, refusals included. -/

namespace BoundedVm

namespace Item

theorem bytesEqual_comm (limits : Limits) (m n : Nat) (x y : List UInt8) :
    bytesEqual limits m x n y = bytesEqual limits n y m x := by
  simp only [bytesEqual, eq_comm (a := bytes m x), or_comm (a := x.length > _),
    Nat.max_comm x.length, BEq.comm (a := x)]

theorem leafEquals_comm (limits : Limits) (a b : Item) :
    a.leafEquals limits b = b.leafEquals limits a := by
  cases a <;> cases b <;> simp only [leafEquals, bytesEqual_comm, eq_comm]

/-- The equality without a walk refuses structs on both sides alike. -/
theorem tryEquals_eq (a b : Item) :
    a.tryEquals b = if a.isStruct || b.isStruct then .error .unboundedStructEquality
      else a.leafEquals .standard b := by
  cases ha : a.isStruct with
  | true => simp [tryEquals, ha]
  | false =>
    cases hb : b.isStruct with
    | true =>
      -- the struct on the right is refused by the comparison of leaves
      obtain ⟨t, rfl⟩ := isStruct_iff.1 hb
      cases a <;> simp_all [tryEquals, leafEquals, isStruct]
    | false => simp [tryEquals, ha]

theorem tryEquals_comm (a b : Item) : a.tryEquals b = b.tryEquals a := by
  rw [tryEquals_eq, tryEquals_eq, Bool.or_comm, leafEquals_comm]

/-- Nothing but a struct is refused for being one. -/
theorem tryEquals_eq_error_iff (a b : Item) :
    a.tryEquals b = .error .unboundedStructEquality ↔ a.isStruct = true ∨ b.isStruct = true := by
  rw [tryEquals_eq, ← Bool.or_eq_true]
  cases hstruct : a.isStruct || b.isStruct with
  | true => simp
  | false =>
    obtain ⟨ha, hb⟩ := Bool.or_eq_false_iff.mp hstruct
    -- every refusal of two leaves is one of a resource limit
    have hleaf := settles_leafEquals .standard ha hb
    refine ⟨fun he => ?_, fun hfalse => absurd hfalse Bool.false_ne_true⟩
    rw [if_neg Bool.false_ne_true] at he
    rw [he] at hleaf
    cases hleaf

end Item

/-- The same step for the pair the other way round. -/
def PairStep.swap : PairStep → PairStep
  | .descend s t => .descend t s
  | step => step

namespace Heap

variable {h : Heap} {limits : Limits}

theorem pairStep_swap (a b : Item) : h.pairStep limits b a = (h.pairStep limits a b).swap := by
  by_cases hkind : a.isStruct = b.isStruct
  · cases ha : a.isStruct with
    | false =>
      have hb : b.isStruct = false := hkind.symm.trans ha
      rw [pairStep_of_isStruct_eq_false h limits ha hb, pairStep_of_isStruct_eq_false h limits hb ha,
        b.leafEquals_comm limits a]
      by_cases hab : a = b
      · rw [if_pos hab, if_pos hab.symm]
        rfl
      · rw [if_neg hab, if_neg (Ne.symm hab)]
        cases a.leafEquals limits b with
        | error e => rfl
        | ok equal => cases equal <;> rfl
    | true =>
      obtain ⟨s, rfl⟩ := Item.isStruct_iff.1 ha
      obtain ⟨t, rfl⟩ := Item.isStruct_iff.1 (hkind.symm.trans ha)
      rw [pairStep_struct_struct, pairStep_struct_struct]
      by_cases hst : s = t
      · rw [if_pos hst, if_pos hst.symm]
        rfl
      · rw [if_neg hst, if_neg (Ne.symm hst)]
        by_cases hsize : (h.items s).size = (h.items t).size
        · rw [if_pos hsize, if_pos hsize.symm]
          rfl
        · rw [if_neg hsize, if_neg (Ne.symm hsize)]
          rfl
  · rw [pairStep_of_isStruct_ne h limits hkind, pairStep_of_isStruct_ne h limits (Ne.symm hkind)]
    rfl

theorem map_swap_elementPairs (s t : ContainerId) :
    (h.elementPairs s t).map Prod.swap = h.elementPairs t s := by
  rw [elementPairs, elementPairs, List.zip_swap]

/-- The walk over pairs comes to the same result with every pair the other way round. -/
theorem comparePairs_map_swap (budget : Nat) (pending : List (Item × Item)) :
    h.comparePairs limits budget (pending.map Prod.swap)
      = h.comparePairs limits budget pending := by
  induction budget generalizing pending with
  | zero => cases pending <;> rfl
  | succ budget ih =>
    cases pending with
    | nil => rfl
    | cons pair pending =>
      obtain ⟨a, b⟩ := pair
      rw [List.map_cons, Prod.swap_prod_mk, comparePairs, comparePairs, pairStep_swap a b]
      cases h.pairStep limits a b with
      | equal => exact ih pending
      | descend s t =>
        show h.comparePairs limits budget (h.elementPairs t s ++ pending.map Prod.swap)
          = h.comparePairs limits budget (h.elementPairs s t ++ pending)
        rw [← map_swap_elementPairs, ← List.map_append, ih]
      | differ => rfl
      | refuse e => rfl

/-- Two structs compare alike from either side. -/
theorem compareStruct_comm (s t : ContainerId) :
    h.compareStruct limits s (.struct t) = h.compareStruct limits t (.struct s) := by
  rw [compareStruct_struct, compareStruct_struct]
  exact comparePairs_map_swap _ [(.struct t, .struct s)]

/-- Two items compare alike from either side. -/
theorem equals_comm (limits : Limits) (a b : Item) : h.equals limits a b = h.equals limits b a := by
  cases ha : a.isStruct with
  | true =>
    obtain ⟨s, rfl⟩ := Item.isStruct_iff.1 ha
    cases hb : b.isStruct with
    | true =>
      obtain ⟨t, rfl⟩ := Item.isStruct_iff.1 hb
      exact compareStruct_comm s t
    | false =>
      rw [equals_struct, compareStruct_of_isStruct_eq_false h limits s hb,
        equals_of_isStruct_eq_false h limits hb, if_pos ha]
  | false =>
    rw [equals_of_isStruct_eq_false h limits ha]
    cases hb : b.isStruct with
    | true =>
      obtain ⟨t, rfl⟩ := Item.isStruct_iff.1 hb
      rw [equals_struct, compareStruct_of_isStruct_eq_false h limits t ha, if_pos rfl]
    | false =>
      rw [equals_of_isStruct_eq_false h limits hb, ha, a.leafEquals_comm limits b]

/-- **Comparison is symmetric.** On every heap two items have the same verdict or the same refusal from
either side, under limits and without. The equality without a walk refuses a pair for a struct exactly
if there is one on either side, and else it is equality under the standard limits. -/
theorem equals_symmetric (h : Heap) (limits : Limits) (a b : Item) :
    h.equals limits a b = h.equals limits b a ∧
      a.tryEquals b = b.tryEquals a ∧
      (a.tryEquals b = .error .unboundedStructEquality
        ↔ a.isStruct = true ∨ b.isStruct = true) ∧
      a.tryEquals b = if a.isStruct || b.isStruct then .error .unboundedStructEquality
        else h.equals .standard a b := by
  refine ⟨equals_comm limits a b, a.tryEquals_comm b, a.tryEquals_eq_error_iff b, ?_⟩
  rw [Item.tryEquals_eq]
  cases hstruct : a.isStruct || b.isStruct with
  | true => rfl
  | false =>
    obtain ⟨ha, hb⟩ := Bool.or_eq_false_iff.mp hstruct
    rw [equals_of_isStruct_eq_false h .standard ha, hb]
    rfl

end Heap

end BoundedVm
