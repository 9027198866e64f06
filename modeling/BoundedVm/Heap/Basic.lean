import BoundedVm.Value.Item

/-! # The heap of containers

A `Heap` holds the containers created so far and the trackers that account for them. Containers and
trackers are numbered in the order of creation and a number is never used again; a container that has
ceased to exist leaves its place empty. Each container knows its items, the tracker that owns it and
the number of handles to it, wherever these are kept.

The view of a heap is `Heap.container?`. Every change of a container goes through `Heap.alter`, and
`container?_alter` says what it does to the view. -/

namespace BoundedVm

/-- A container that exists. -/
structure Container where
  items : Array Item
  owner : TrackerId
  /-- The number of handles to the container. -/
  handles : Nat

/-- The account of the containers of one execution. -/
structure Tracker where
  /-- The most containers that may be live. -/
  limit : Nat
  live : Nat
  /-- The largest number of live containers so far. -/
  peak : Nat
  /-- The containers that the next discard will empty, among them some that have ceased to exist. -/
  registry : Array ContainerId

/-- The containers, the trackers, and the number of allocations of integers and byte strings. -/
structure Heap where
  containers : Array (Option Container)
  trackers : Array Tracker
  allocations : Nat

namespace Heap

/-- The heap without containers and trackers. -/
def empty : Heap := ⟨#[], #[], 0⟩

instance : Inhabited Heap := ⟨empty⟩

/-! ## The view -/

/-- The container with a number, if it exists. -/
def container? (h : Heap) (c : ContainerId) : Option Container :=
  h.containers[c]?.join

/-- Whether a container exists. -/
def alive (h : Heap) (c : ContainerId) : Bool :=
  (h.container? c).isSome

/-- The items of a container, none if it does not exist. -/
def items (h : Heap) (c : ContainerId) : Array Item :=
  match h.container? c with
  | some k => k.items
  | none => #[]

/-- The number of handles to a container, none if it does not exist. -/
def handles (h : Heap) (c : ContainerId) : Nat :=
  match h.container? c with
  | some k => k.handles
  | none => 0

/-- The tracker that owns a container. -/
def owner (h : Heap) (c : ContainerId) : TrackerId :=
  match h.container? c with
  | some k => k.owner
  | none => 0

/-- The number of containers created so far, which is the number of the next one. -/
def created (h : Heap) : Nat := h.containers.size

/-- The tracker with a number. -/
def tracker? (h : Heap) (t : TrackerId) : Option Tracker :=
  h.trackers[t]?

/-! ## Changes -/

/-- Changes a container that exists, or ends its existence where `f` gives nothing. -/
def alter (h : Heap) (c : ContainerId) (f : Container → Option Container) : Heap :=
  { h with containers := h.containers.modify c (·.bind f) }

/-- Changes a tracker. -/
def adjust (h : Heap) (t : TrackerId) (f : Tracker → Tracker) : Heap :=
  { h with trackers := h.trackers.modify t f }

/-- A number that no allocation has yet. -/
def allocate (h : Heap) : Nat × Heap :=
  (h.allocations, { h with allocations := h.allocations + 1 })

/-- A new tracker without containers. -/
def openTracker (limit : Nat) (h : Heap) : TrackerId × Heap :=
  (h.trackers.size, { h with trackers := h.trackers.push ⟨limit, 0, 0, #[]⟩ })

@[simp] theorem container?_alter (h : Heap) (c d : ContainerId)
    (f : Container → Option Container) :
    (h.alter c f).container? d
      = if c = d then (h.container? c).bind f else h.container? d := by
  unfold alter container?
  rw [Array.getElem?_modify]
  split
  · rename_i e
    subst e
    cases h.containers[c]? <;> rfl
  · rfl

@[simp] theorem container?_adjust (h : Heap) (t : TrackerId) (f : Tracker → Tracker)
    (c : ContainerId) : (h.adjust t f).container? c = h.container? c := rfl

@[simp] theorem tracker?_alter (h : Heap) (c : ContainerId) (f : Container → Option Container)
    (t : TrackerId) : (h.alter c f).tracker? t = h.tracker? t := rfl

@[simp] theorem tracker?_adjust (h : Heap) (t u : TrackerId) (f : Tracker → Tracker) :
    (h.adjust t f).tracker? u = if t = u then (h.tracker? t).map f else h.tracker? u := by
  unfold adjust tracker?
  rw [Array.getElem?_modify]
  split
  · rename_i e
    subst e
    rfl
  · rfl

/-! ## Sums over all places -/

/-- The sum of what some values weigh. -/
def sumOf {α : Type} (weight : α → Nat) : List α → Nat
  | [] => 0
  | a :: l => weight a + sumOf weight l

@[simp] theorem sumOf_nil {α : Type} (weight : α → Nat) : sumOf weight [] = 0 := rfl

@[simp] theorem sumOf_cons {α : Type} (weight : α → Nat) (a : α) (l : List α) :
    sumOf weight (a :: l) = weight a + sumOf weight l := rfl

@[simp] theorem sumOf_append {α : Type} (weight : α → Nat) (l l' : List α) :
    sumOf weight (l ++ l') = sumOf weight l + sumOf weight l' := by
  induction l with
  | nil => exact (Nat.zero_add _).symm
  | cons a l ih => rw [List.cons_append, sumOf_cons, sumOf_cons, ih, Nat.add_assoc]

/-- The sum of what the places of the heap weigh. -/
def total (h : Heap) (weight : Option Container → Nat) : Nat :=
  sumOf weight h.containers.toList

theorem sumOf_modify (weight : Option Container → Nat) (l : List (Option Container)) (c : Nat)
    (f : Container → Option Container) :
    sumOf weight (l.modify c (·.bind f)) + weight l[c]?.join
      = sumOf weight l + weight (l[c]?.join.bind f) := by
  induction l generalizing c with
  | nil => cases c <;> rfl
  | cons a l ih =>
    match c with
    | 0 =>
      simp only [List.modify_zero_cons, sumOf_cons, List.getElem?_cons_zero, Option.join_some]
      omega
    | c + 1 =>
      have := ih c
      simp only [List.modify_succ_cons, sumOf_cons, List.getElem?_cons_succ]
      omega

/-- A change of a container changes a sum by what it changes there. -/
theorem total_alter (weight : Option Container → Nat) (h : Heap) (c : ContainerId)
    (f : Container → Option Container) :
    (h.alter c f).total weight + weight (h.container? c)
      = h.total weight + weight ((h.container? c).bind f) := by
  have := sumOf_modify weight h.containers.toList c f
  simpa [total, alter, container?] using this

@[simp] theorem total_adjust (weight : Option Container → Nat) (h : Heap) (t : TrackerId)
    (f : Tracker → Tracker) : (h.adjust t f).total weight = h.total weight := rfl

/-! ## The number of items kept -/

/-- The number of items that a place of the heap keeps. -/
def weight : Option Container → Nat
  | some k => k.items.size
  | none => 0

/-- The number of items kept in all containers. -/
def itemCount (h : Heap) : Nat :=
  h.total weight

theorem itemCount_alter (h : Heap) (c : ContainerId) (f : Container → Option Container) :
    (h.alter c f).itemCount + weight (h.container? c)
      = h.itemCount + weight ((h.container? c).bind f) :=
  h.total_alter weight c f

@[simp] theorem itemCount_adjust (h : Heap) (t : TrackerId) (f : Tracker → Tracker) :
    (h.adjust t f).itemCount = h.itemCount := rfl

end Heap

end BoundedVm
