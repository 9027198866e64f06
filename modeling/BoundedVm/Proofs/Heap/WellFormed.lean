import BoundedVm.Proofs.Heap.View

/-! # Well-formed heaps

A heap is well formed if the handles that it keeps name containers that were created and the owners of
its containers are trackers that were opened. Every heap that operations lead to is well formed, by
`Reachable.wellFormed`. -/

namespace BoundedVm

namespace Heap

/-- Every handle kept names a container that was created, and every owner is a tracker that was
opened. -/
structure WellFormed (h : Heap) : Prop where
  lt_created : ∀ {c d : ContainerId} {x : Item},
    x ∈ h.items c → x.container? = some d → d < h.created
  owner_lt : ∀ {c : ContainerId}, h.alive c = true → h.owner c < h.trackers.size

variable {h : Heap}

/-- It is enough to look at the containers that were created, which makes the property decidable. -/
theorem wellFormed_iff : h.WellFormed ↔ ∀ c < h.created,
    (∀ x ∈ (h.items c).toList, ∀ d ∈ x.container?, d < h.created)
      ∧ (h.alive c = true → h.owner c < h.trackers.size) := by
  constructor
  · intro hh c _
    exact ⟨fun x hx d hd => hh.lt_created (Array.mem_toList_iff.mp hx) hd, hh.owner_lt⟩
  · intro hall
    refine ⟨fun {c d x} hx hd => ?_, fun {c} hc => (hall c (lt_created_of_alive hc)).2 hc⟩
    have hc : c < h.created := by
      by_contra hlt
      rw [items_of_not_alive (not_alive_of_created_le (Nat.le_of_not_lt hlt))] at hx
      simp at hx
    exact (hall c hc).1 x (Array.mem_toList_iff.mpr hx) d hd

instance : Decidable h.WellFormed :=
  decidable_of_iff' _ wellFormed_iff

/-- The struct elements of a container were created. -/
theorem WellFormed.lt_created_of_struct (hh : h.WellFormed) {c d : ContainerId}
    (hd : .struct d ∈ (h.items c).toList) : d < h.created :=
  hh.lt_created (Array.mem_toList_iff.mp hd) rfl

/-- The owner of a container that exists has an account. -/
theorem WellFormed.exists_tracker? (hh : h.WellFormed) {c : ContainerId} (hc : h.alive c = true) :
    ∃ account, h.tracker? (h.owner c) = some account :=
  ⟨_, Array.getElem?_eq_getElem (hh.owner_lt hc)⟩

end Heap

end BoundedVm
