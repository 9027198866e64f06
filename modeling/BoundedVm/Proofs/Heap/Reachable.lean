import BoundedVm.Proofs.Heap.Step

/-! # Reachable heaps

`Heap.Reachable` says which heaps there can be while which handles are held outside: those that come
about from the empty heap by opening trackers, making values, copying and giving up handles, and moving
handles between containers and the outside. Every operation of the heap is composed of these, so that
what they keep holds throughout every history; `Reachable.accounted` is the first instance. -/

namespace BoundedVm

namespace Heap

/-- The heaps that there can be, each with the handles that are held outside. -/
inductive Reachable : Heap → List Item → Prop
  | empty : Reachable .empty []
  /-- The order of the handles does not matter. -/
  | perm {h : Heap} {held held' : List Item} (hr : Reachable h held) (hp : held.Perm held') :
    Reachable h held'
  | openTracker {h : Heap} {held : List Item} (hr : Reachable h held) (limit : Nat) :
    Reachable (h.openTracker limit).2 held
  | allocate {h : Heap} {held : List Item} (hr : Reachable h held) : Reachable h.allocate.2 held
  /-- A value that is no container is made. -/
  | leaf {h : Heap} {held : List Item} {x : Item} (hr : Reachable h held)
    (hx : x.container? = none) : Reachable h (x :: held)
  | share {h : Heap} {held : List Item} {x : Item} (hr : Reachable h held)
    (hx : h.Accessible held x) (n : Nat) : Reachable (h.share n x) (List.replicate n x ++ held)
  | release {h : Heap} {held xs : List Item} (hr : Reachable h (xs ++ held)) :
    Reachable (h.release xs) held
  /-- A tracker that has room takes a further container. -/
  | enroll {h : Heap} {held : List Item} {xs : Array Item} {t : TrackerId} {account : Tracker}
    (hr : Reachable h (xs.toList ++ held)) (ht : h.tracker? t = some account)
    (hroom : account.live < account.limit) (kind : Compound) :
    Reachable (h.enroll t xs) (kind.item h.created :: held)
  /-- Handles move between a container and the outside. -/
  | exchange {h : Heap} {held held' : List Item} {c : ContainerId} {ys : Array Item}
    (hr : Reachable h held) (hc : h.alive c = true)
    (hp : ((h.items c).toList ++ held).Perm (ys.toList ++ held')) :
    Reachable (h.alter c fun k => some { k with items := ys }) held'
  | discard {h : Heap} {held : List Item} (hr : Reachable h held) (t : TrackerId) :
    Reachable (h.discard t).2 held

namespace Reachable

variable {h : Heap} {held : List Item}

/-- What all operations keep and what holds of the empty heap holds of every reachable one. -/
theorem of_invariant {P : Heap → List Item → Prop} (hP : Invariant (fun _ => True) P)
    (hempty : P .empty []) (hr : Reachable h held) : P h held := by
  induction hr with
  | empty => exact hempty
  | perm _ hp ih => exact hP.perm ih hp
  | openTracker _ limit ih => exact hP.openTracker ih limit
  | allocate _ ih => exact hP.allocate ih
  | leaf _ hx ih => exact hP.leaf ih hx
  | share _ hx n ih => exact hP.share ih hx n
  | release _ ih => exact hP.release ih
  | enroll _ ht hroom kind ih => exact hP.enroll trivial ih ht hroom kind
  | exchange _ hc hp ih => exact hP.exchange (.inl trivial) ih hc hp
  | discard _ t ih => exact hP.discard trivial ih

/-- **Every history counts its handles right.** -/
theorem accounted (hr : Reachable h held) : h.Accounted held := by
  have hP := invariant_leads (fun _ => True) accounted_empty
  exact hP.accounted (hr.of_invariant hP ⟨[], .refl⟩)

theorem wellFormed (hr : Reachable h held) : h.WellFormed :=
  hr.accounted.wellFormed

end Reachable

/-- Reachable heaps lead to reachable heaps, whatever the operations do. -/
theorem invariant_reachable : Invariant (fun _ => True) Reachable where
  accounted := Reachable.accounted
  perm := .perm
  openTracker := .openTracker
  allocate := .allocate
  leaf := .leaf
  share := .share
  release := .release
  enroll _ := .enroll
  exchange _ := .exchange
  discard _ _ _ hr := hr.discard _

end Heap

end BoundedVm
