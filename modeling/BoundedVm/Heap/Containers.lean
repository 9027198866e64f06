import BoundedVm.Heap.Release

/-! # Operations on containers

Creation, element access and mutation, and the discard of a tracker's containers. An operation takes
over the handles that it is given and hands over those that it returns: a refused creation and a
refused `set` give up the handles that were to be stored, `get` makes a new handle, and `remove` hands
out the one that was stored. -/

namespace BoundedVm

namespace Tracker

/-- The number of registry entries from which on entries of containers that no longer exist are
removed before the next registration. -/
def compactionBound (t : Tracker) : Nat :=
  2 * (t.live + 1) + 64

/-- The account after a further container, whose number is `c`. -/
def register (c : ContainerId) (t : Tracker) : Tracker :=
  { t with live := t.live + 1, peak := max t.peak (t.live + 1), registry := t.registry.push c }

end Tracker

namespace Heap

/-! ## Creation -/

/-- Removes the registry entries of containers that no longer exist, once there are too many entries
for the live containers. -/
def compact (t : TrackerId) (h : Heap) : Heap :=
  match h.tracker? t with
  | some account =>
    if account.registry.size ≥ account.compactionBound then
      let kept := account.registry.filter h.alive
      h.adjust t fun account => { account with registry := kept }
    else h
  | none => h

/-- The heap with a further container, registered with its tracker, that has the given items and one
handle. -/
def enroll (t : TrackerId) (items : Array Item) (h : Heap) : Heap :=
  let c := h.created
  let h := (h.compact t).adjust t (Tracker.register c)
  { h with containers := h.containers.push (some ⟨items, t, 1⟩) }

/-- A new container with the given items and one handle, owned by a tracker; the tracker refuses it
when it has no room, and then the items are given up. -/
def create (t : TrackerId) (items : Array Item) (h : Heap) :
    Except ValueFault ContainerId × Heap :=
  match h.tracker? t with
  | none => (.error (.tooManyContainers 0), h.release items.toList)
  | some account =>
    if account.live ≥ account.limit then
      (.error (.tooManyContainers account.limit), h.release items.toList)
    else (.ok h.created, h.enroll t items)

/-- Without an account there is no room, and what the container was to hold is given up. -/
theorem create_of_none {h : Heap} {t : TrackerId} (ht : h.tracker? t = none) (xs : Array Item) :
    h.create t xs = (.error (.tooManyContainers 0), h.release xs.toList) := by
  rw [create, ht]

/-- A tracker that has room takes a further container. -/
theorem create_of_lt {h : Heap} {t : TrackerId} {account : Tracker}
    (ht : h.tracker? t = some account) (hroom : account.live < account.limit) (xs : Array Item) :
    h.create t xs = (.ok h.created, h.enroll t xs) := by
  rw [create, ht]
  exact if_neg (Nat.not_le.mpr hroom)

/-- A tracker that is full refuses a further container and gives up what it was to hold. -/
theorem create_of_le {h : Heap} {t : TrackerId} {account : Tracker}
    (ht : h.tracker? t = some account) (hfull : account.limit ≤ account.live) (xs : Array Item) :
    h.create t xs = (.error (.tooManyContainers account.limit), h.release xs.toList) := by
  rw [create, ht]
  exact if_pos hfull

/-! ## Elements -/

/-- A new handle to the element at an index. -/
def get (c : ContainerId) (index : Nat) (h : Heap) : Except ValueFault Item × Heap :=
  match (h.items c)[index]? with
  | some x => (.ok x, h.share 1 x)
  | none => (.error (.indexOutOfRange index (h.items c).size), h)

/-- Replaces the element at an index and gives up the old one. -/
def set (c : ContainerId) (index : Nat) (x : Item) (h : Heap) : Except ValueFault Unit × Heap :=
  match (h.items c)[index]? with
  | some old =>
    let h := h.alter c fun k => some { k with items := k.items.setIfInBounds index x }
    (.ok (), h.release [old])
  | none => (.error (.indexOutOfRange index (h.items c).size), h.release [x])

/-- Appends an element. -/
def push (c : ContainerId) (x : Item) (h : Heap) : Heap :=
  h.alter c fun k => some { k with items := k.items.push x }

/-- Appends `n` handles to one value, of which one is given. -/
def pushCopies (c : ContainerId) (x : Item) (n : Nat) (h : Heap) : Heap :=
  let h := (h.share n x).alter c fun k => some { k with items := k.items ++ Array.replicate n x }
  h.release [x]

/-- Takes the element at an index out of its container. -/
def remove (c : ContainerId) (index : Nat) (h : Heap) : Except ValueFault Item × Heap :=
  match (h.items c)[index]? with
  | some x =>
    (.ok x, h.alter c fun k => some { k with items := k.items.eraseIdxIfInBounds index })
  | none => (.error (.indexOutOfRange index (h.items c).size), h)

/-- Empties a container and gives up what it held. -/
def clear (c : ContainerId) (h : Heap) : Heap :=
  let taken := h.takeItems c
  taken.2.release taken.1.toList

/-- A new array with further handles to the elements of a struct, owned by the struct's tracker. -/
def toArray (c : ContainerId) (h : Heap) : Except ValueFault ContainerId × Heap :=
  let items := h.items c
  -- the handles are made first, since a refusal gives them up
  (h.shareAll items.toList).create (h.owner c) items

/-! ## Discard -/

/-- Empties some containers, and gives the handles that they held beside those given. -/
def takeAll (found : List ContainerId) (held : List Item) (h : Heap) : List Item × Heap :=
  match found with
  | [] => (held, h)
  | c :: rest =>
    let taken := h.takeItems c
    takeAll rest (taken.1.toList ++ held) taken.2

/-- The registered containers of a tracker that still exist. -/
def registered (h : Heap) (t : TrackerId) : List ContainerId :=
  match h.tracker? t with
  | some account => account.registry.toList.filter h.alive
  | none => []

/-- Empties every registered container of a tracker that still exists, forgets the registrations, and
gives the number of containers emptied. All are emptied before any handle is given up. -/
def discard (t : TrackerId) (h : Heap) : Nat × Heap :=
  -- the containers found are fixed here: those that end while handles are given up count too
  let found := h.registered t
  let h := h.adjust t fun account => { account with registry := #[] }
  let taken := takeAll found [] h
  (found.length, taken.2.release taken.1)

end Heap

end BoundedVm
