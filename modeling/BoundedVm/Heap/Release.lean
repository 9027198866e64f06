import BoundedVm.Heap.Basic

/-! # Handles and their release

`Heap.share` makes further handles to a value. `Heap.release` gives handles up. A container whose last
handle is given up ceases to exist: its tracker is told, and the handles among its items are given up
in their turn. This is done in a loop over pending items rather than by recursion into containers: the
items of a container about to end are moved to the pending ones first, so that the container is empty
when its last handle goes. The loop ends because every turn takes one item off those kept or pending. -/

namespace BoundedVm

namespace Tracker

/-- The account after one of its containers has ceased to exist. -/
def unregister (t : Tracker) : Tracker :=
  { t with live := t.live - 1 }

end Tracker

namespace Heap

/-- Makes `n` further handles to a value. -/
def share (n : Nat) (x : Item) (h : Heap) : Heap :=
  match x.container? with
  | some c => h.alter c fun k => some { k with handles := k.handles + n }
  | none => h

/-- Makes a further handle to each of some values. -/
def shareAll (xs : List Item) (h : Heap) : Heap :=
  xs.foldl (fun h x => h.share 1 x) h

/-- The items of a container, which is left empty. -/
def takeItems (c : ContainerId) (h : Heap) : Array Item × Heap :=
  (h.items c, h.alter c fun k => some { k with items := #[] })

/-- The container of an item if it exists and the item is its only handle. -/
def lastHandle? (h : Heap) (x : Item) : Option ContainerId :=
  x.container?.filter fun c => h.handles c = 1

/-- Gives up one handle to a container; the last one ends its existence, whatever it holds. -/
def dropHandle (c : ContainerId) (h : Heap) : Heap :=
  if h.handles c ≤ 1 then (h.adjust (h.owner c) Tracker.unregister).alter c fun _ => none
  else h.alter c fun k => some { k with handles := k.handles - 1 }

/-- Gives up the handle that an item is, if it names a container that exists. -/
def dropItem (x : Item) (h : Heap) : Heap :=
  match x.container? with
  | some c => if h.alive c then h.dropHandle c else h
  | none => h

theorem itemCount_takeItems (c : ContainerId) (h : Heap) :
    (h.takeItems c).2.itemCount + (h.takeItems c).1.size = h.itemCount := by
  have hc := h.itemCount_alter c fun k => some { k with items := #[] }
  unfold takeItems items
  -- what the container weighs is what is taken from it
  cases hk : h.container? c with
  | none => simpa [hk, weight] using hc
  | some k => simpa [hk, weight] using hc

theorem itemCount_dropHandle_le (c : ContainerId) (h : Heap) :
    (h.dropHandle c).itemCount ≤ h.itemCount := by
  unfold dropHandle
  split
  · have hc := (h.adjust (h.owner c) Tracker.unregister).itemCount_alter c fun _ => none
    simp only [itemCount_adjust, container?_adjust] at hc
    cases hk : h.container? c <;> simp [hk, weight] at hc <;> omega
  · have hc := h.itemCount_alter c fun k => some { k with handles := k.handles - 1 }
    cases hk : h.container? c <;> simp [hk, weight] at hc <;> omega

theorem itemCount_dropItem_le (x : Item) (h : Heap) : (h.dropItem x).itemCount ≤ h.itemCount := by
  unfold dropItem
  split
  · split
    · exact itemCount_dropHandle_le _ h
    · exact Nat.le_refl _
  · exact Nat.le_refl _

/-- Gives up the pending handles and all that depend on them. -/
def release (pending : List Item) (h : Heap) : Heap :=
  match pending with
  | [] => h
  | x :: rest =>
    match h.lastHandle? x with
    | some c =>
      let taken := h.takeItems c
      -- the items are pending before the container ends, so that it takes nothing along
      release (taken.1.toList ++ rest) (taken.2.dropItem x)
    | none => release rest (h.dropItem x)
termination_by pending.length + h.itemCount
decreasing_by
  · -- the items taken move from the heap to the pending ones, and the handle itself is gone
    have h1 := itemCount_takeItems c h
    have h2 := itemCount_dropItem_le x (h.takeItems c).2
    simp only [List.length_append, Array.length_toList, List.length_cons]
    omega
  · have := itemCount_dropItem_le x h
    simp only [List.length_cons]
    omega

@[simp] theorem release_nil (h : Heap) : h.release [] = h := by
  rw [release]

theorem release_of_lastHandle?_eq_some {h : Heap} {x : Item} {c : ContainerId}
    (hx : h.lastHandle? x = some c) (rest : List Item) :
    h.release (x :: rest) = ((h.takeItems c).2.dropItem x).release ((h.items c).toList ++ rest) := by
  rw [release]
  simp only [hx]
  rfl

theorem release_of_lastHandle?_eq_none {h : Heap} {x : Item} (hx : h.lastHandle? x = none)
    (rest : List Item) : h.release (x :: rest) = (h.dropItem x).release rest := by
  rw [release]
  simp only [hx]

/-- Induction along a run of the loop, with one case for each of its turns. -/
theorem release_induction {motive : List Item → Heap → Prop} (nil : ∀ h, motive [] h)
    (last : ∀ x rest c h, h.lastHandle? x = some c →
      motive ((h.items c).toList ++ rest) ((h.takeItems c).2.dropItem x) → motive (x :: rest) h)
    (further : ∀ x rest h, h.lastHandle? x = none → motive rest (h.dropItem x) →
      motive (x :: rest) h)
    (pending : List Item) (h : Heap) : motive pending h := by
  induction pending, h using release.induct with
  | case1 => exact nil _
  | case2 => exact last _ _ _ _ ‹_› ‹_›
  | case3 => exact further _ _ _ ‹_› ‹_›

end Heap

end BoundedVm
