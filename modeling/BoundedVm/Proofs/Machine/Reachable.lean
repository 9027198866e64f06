import BoundedVm.Proofs.Heap.Reachable
import BoundedVm.Proofs.Machine.Invariant

/-! # Reachable machines

A machine is reachable if requests lead to it from the empty machine, whether they are refused or not.
The heap of a reachable machine is reachable while the slots hold handles and nothing else does. -/

namespace BoundedVm

namespace Machine

/-- The machine after a request, whether the request is refused or not. -/
def after (m : Machine) (r : Request) : Machine :=
  match perform r m with
  | .ok _ m | .error _ m => m

/-- The machines to which requests lead from the empty one. -/
inductive Reachable : Machine → Prop
  | empty : Reachable .empty
  | after {m : Machine} (hm : Reachable m) (r : Request) : Reachable (m.after r)

/-- What the operations keep is kept by a request that has no other effects. -/
theorem Holds.after {may : Heap.Effect → Prop} {P : Heap → List Item → Prop} {m : Machine}
    (hm : m.Holds P []) (hP : Heap.Invariant may P) (r : Request)
    (hmay : ∀ e, m.Does r e → may e) : (m.after r).Holds P [] := by
  have hends := ends_perform hP hm r hmay
  unfold Machine.after
  cases hout : perform r m with
  | ok answer m' =>
    rw [hout] at hends
    exact hends
  | error e m' =>
    rw [hout] at hends
    exact hends

theorem Reachable.holds {m : Machine} (hm : m.Reachable) : m.Holds Heap.Reachable [] := by
  induction hm with
  | empty => exact ⟨.empty, List.nodup_nil⟩
  | after _ r ih => exact ih.after Heap.invariant_reachable r fun _ _ => trivial

/-- **Machines have reachable heaps.** After any requests the heap is one that there can be while the
slots hold the only handles from outside. -/
theorem Reachable.heap {m : Machine} (hm : m.Reachable) : m.heap.Reachable m.handles := by
  have hreachable := hm.holds.related
  rwa [List.append_nil] at hreachable

/-- A machine with one execution open is reachable. -/
theorem reachable_of_start {name : String} {limits : Limits} {m : Machine}
    (hm : start name limits = .ok m) : m.Reachable := by
  -- to start is to make one request to the empty machine
  have hopened := Reachable.empty.after ⟨name, none, none, .openScope limits⟩
  unfold after perform at hopened
  simp only [bind, EStateM.bind] at hopened
  unfold start at hm
  cases hout : openScope name limits .empty with
  | ok limits m' =>
    rw [hout] at hm hopened
    cases hm
    exact hopened
  | error e m' =>
    rw [hout] at hm hopened
    cases e with
    | value fault => cases hm
    | unknownName =>
      cases hm
      exact hopened

end Machine

end BoundedVm
