import BoundedVm.Proofs.Clone.Budget

/-! # Chains of structs

A chain of structs has on every level some leaves and, behind them, the struct of the level below. Its
unfolding has no more places than there are items, so that what it costs to walk through it is the number
of its levels times what one level holds.

* `Heap.IsChain`: a chain, given by its number of levels and the struct on top.
* `IsChain.countAll_eq`: the places in the unfolding of a chain.
* `IsChain.elementCount_eq`, `IsChain.structCount_eq`: the elements and the structs among them. -/

namespace BoundedVm

namespace Heap

variable {h h' : Heap} {width n : Nat} {inner : Option ContainerId} {c : ContainerId}

/-- A chain of some levels, each with `width` leaves; a chain without levels has no struct on top. -/
inductive IsChain (h : Heap) (width : Nat) : Nat → Option ContainerId → Prop
  | none : IsChain h width 0 none
  | level {n : Nat} {inner : Option ContainerId} {c : ContainerId} {leaves : List Item}
    (hinner : IsChain h width n inner) (hc : h.alive c = true)
    (hleaves : ∀ x ∈ leaves, x.isStruct = false) (hwidth : leaves.length = width)
    (hitems : (h.items c).toList = leaves ++ inner.toList.map .struct) :
    IsChain h width (n + 1) (some c)

namespace IsChain

theorem alive (hc : h.IsChain width n (some c)) : h.alive c = true := by
  cases hc with
  | level _ halive => exact halive

/-- A chain stays where the containers that exist keep what they hold. -/
theorem of_items_eq (hchain : h.IsChain width n inner)
    (hkeep : ∀ c, h.alive c = true → h'.alive c = true ∧ h'.items c = h.items c) :
    h'.IsChain width n inner := by
  induction hchain with
  | none => exact .none
  | @level n inner c leaves _ hc hleaves hwidth hitems ih =>
    obtain ⟨halive, hsame⟩ := hkeep c hc
    refine .level ih halive hleaves hwidth ?_
    rw [hsame]
    exact hitems

/-- A further container leaves a chain as it is. -/
theorem enroll (hchain : h.IsChain width n inner) (t : TrackerId) (xs : Array Item) :
    (h.enroll t xs).IsChain width n inner := by
  refine hchain.of_items_eq fun c hc => ⟨?_, ?_⟩
  · rw [alive_enroll, hc, Bool.or_true]
  · rw [items_enroll, if_neg (Nat.ne_of_lt (lt_created_of_alive hc))]

end IsChain

/-! ## The size of a chain -/

section Counts

variable {P : Item → Prop} {w : Nat}

/-- Items that count the same. -/
theorem countAll_eq_of_forall {xs : List Item} (hxs : ∀ x ∈ xs, h.countFrom P x = w) :
    h.countAll P xs = (xs.length * w : Nat) := by
  have hsum : (xs.map (h.countFrom P)).sum = xs.length • (w : ℕ∞) := by
    rw [List.sum_eq_card_nsmul _ (w : ℕ∞) (List.forall_mem_map.mpr hxs), List.length_map]
  rw [countAll, hsum, nsmul_eq_mul, Nat.cast_mul]

namespace IsChain

/-- **The unfolding of a chain.** If every struct has the property and a leaf counts for `w`, a chain
counts on every level for one struct and its leaves. -/
theorem countAll_eq (hchain : h.IsChain width n inner) (hstruct : ∀ c, P (.struct c))
    (hleaf : ∀ x : Item, x.isStruct = false → h.countFrom P x = w) :
    h.countAll P (inner.toList.map .struct) = (n * (width * w + 1) : Nat) := by
  induction hchain with
  | none => simp
  | @level n inner c leaves _ _ hleaves hwidth hitems ih =>
    have hlevel : h.countAll P leaves = (width * w : Nat) := by
      rw [countAll_eq_of_forall fun x hx => hleaf x (hleaves x hx), hwidth]
    have hbelow : h.countAll P (h.children (.struct c))
        = (width * w + n * (width * w + 1) : Nat) := by
      rw [children_struct, hitems, countAll_append, hlevel, ih, Nat.cast_add]
    have hsum : 1 + (width * w + n * (width * w + 1)) = (n + 1) * (width * w + 1) := by ring
    rw [Option.toList_some, List.map_singleton, countAll_cons, countAll_nil, add_zero,
      countFrom_of_holds (hstruct c), hbelow, ← Nat.cast_one, ← Nat.cast_add, hsum]

/-- What lies below the top of a chain, and the top itself. -/
theorem one_add_countBelow (hchain : h.IsChain width n (some c)) (hstruct : ∀ c, P (.struct c))
    (hleaf : ∀ x : Item, x.isStruct = false → h.countFrom P x = w) :
    1 + h.countBelow P (.struct c) = (n * (width * w + 1) : Nat) := by
  have hcount := hchain.countAll_eq hstruct hleaf
  rwa [Option.toList_some, List.map_singleton, countAll_cons, countAll_nil, add_zero,
    countFrom_of_holds (hstruct c), ← countBelow_eq] at hcount

/-- Every item of a chain is one element, but for the struct on top. -/
theorem elementCount_eq (hchain : h.IsChain width n (some c)) :
    1 + h.elementCount c = (n * width + n : Nat) := by
  have hleaf : ∀ x : Item, x.isStruct = false → h.countFrom (fun _ => True) x = (1 : Nat) := by
    intro x hx
    rw [countFrom_of_holds trivial, children_of_isStruct_eq_false hx]
    simp
  have hcount := hchain.one_add_countBelow (fun _ => trivial) hleaf
  rwa [Nat.mul_one, Nat.mul_succ] at hcount

/-- There is one struct on every level. -/
theorem structCount_eq (hchain : h.IsChain width n (some c)) : 1 + h.structCount c = (n : Nat) := by
  have hleaf : ∀ x : Item, x.isStruct = false →
      h.countFrom (fun x => x.isStruct = true) x = (0 : Nat) := by
    intro x hx
    rw [countFrom_of_not_holds (by simp [hx]), children_of_isStruct_eq_false hx]
    simp
  have hcount := hchain.one_add_countBelow (fun _ => rfl) hleaf
  rwa [Nat.mul_zero, Nat.zero_add, Nat.mul_one] at hcount

end IsChain

end Counts

end Heap

end BoundedVm
