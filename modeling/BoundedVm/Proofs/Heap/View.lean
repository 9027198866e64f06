import BoundedVm.Heap.Containers
import Mathlib.Tactic.Common

/-! # The heap after an operation

What the operations of `Heap.Release` and `Heap.Containers` do to the items, the owner and the existence
of each container and to the account of each tracker. The lemmas are stated for one operation and any
container, so that what an operation leaves alone is read off them too. -/

namespace BoundedVm

namespace Heap

variable {h : Heap}

/-! ## The parts of the view -/

theorem alive_iff {c : ContainerId} : h.alive c = true ↔ ∃ k, h.container? c = some k :=
  Option.isSome_iff_exists

theorem items_eq_getD (c : ContainerId) :
    h.items c = ((h.container? c).map Container.items).getD #[] := by
  unfold items
  cases h.container? c <;> rfl

theorem owner_eq_getD (c : ContainerId) :
    h.owner c = ((h.container? c).map Container.owner).getD 0 := by
  unfold owner
  cases h.container? c <;> rfl

theorem handles_eq_getD (c : ContainerId) :
    h.handles c = ((h.container? c).map Container.handles).getD 0 := by
  unfold handles
  cases h.container? c <;> rfl

theorem alive_eq_isSome (c : ContainerId) : h.alive c = (h.container? c).isSome := rfl

/-- Only containers that were created exist. -/
theorem lt_created_of_alive {c : ContainerId} (hc : h.alive c = true) : c < h.created := by
  by_contra hlt
  have hnone : h.containers[c]? = none := Array.getElem?_eq_none (Nat.le_of_not_lt hlt)
  simp [alive, container?, hnone] at hc

theorem not_alive_of_created_le {c : ContainerId} (hc : h.created ≤ c) : h.alive c = false := by
  cases ha : h.alive c with
  | false => rfl
  | true => exact absurd (lt_created_of_alive ha) (Nat.not_lt.mpr hc)

/-- What does not exist holds nothing. -/
theorem items_of_not_alive {c : ContainerId} (hc : h.alive c = false) : h.items c = #[] := by
  rw [alive_eq_isSome, Option.isSome_eq_false_iff, Option.isNone_iff_eq_none] at hc
  rw [items_eq_getD, hc]
  rfl

/-- What holds something exists. -/
theorem alive_of_mem_items {c : ContainerId} {x : Item} (hx : x ∈ h.items c) :
    h.alive c = true := by
  cases hc : h.alive c with
  | true => rfl
  | false =>
    rw [items_of_not_alive hc] at hx
    simp at hx

/-! ## Changes of one container or tracker -/

@[simp] theorem created_alter (c : ContainerId) (f : Container → Option Container) :
    (h.alter c f).created = h.created := by
  simp [created, alter]

@[simp] theorem created_adjust (t : TrackerId) (f : Tracker → Tracker) :
    (h.adjust t f).created = h.created := rfl

@[simp] theorem items_adjust (t : TrackerId) (f : Tracker → Tracker) (c : ContainerId) :
    (h.adjust t f).items c = h.items c := rfl

@[simp] theorem owner_adjust (t : TrackerId) (f : Tracker → Tracker) (c : ContainerId) :
    (h.adjust t f).owner c = h.owner c := rfl

@[simp] theorem alive_adjust (t : TrackerId) (f : Tracker → Tracker) (c : ContainerId) :
    (h.adjust t f).alive c = h.alive c := rfl

theorem container?_alter_some (c d : ContainerId) (f : Container → Container) :
    (h.alter c fun k => some (f k)).container? d
      = if c = d then (h.container? d).map f else h.container? d := by
  rw [container?_alter]
  split
  · rename_i hcd
    subst hcd
    cases h.container? c <;> rfl
  · rfl

/-- A change of a container leaves every container in existence. -/
theorem alive_alter_some (c d : ContainerId) (f : Container → Container) :
    (h.alter c fun k => some (f k)).alive d = h.alive d := by
  rw [alive_eq_isSome, container?_alter_some, alive_eq_isSome]
  split <;> simp

/-- A change that keeps the owner of a container keeps all owners. -/
theorem owner_alter_some (f : Container → Container) (hf : ∀ k, (f k).owner = k.owner)
    (c d : ContainerId) : (h.alter c fun k => some (f k)).owner d = h.owner d := by
  rw [owner_eq_getD, container?_alter_some, owner_eq_getD]
  split
  · cases h.container? d <;> simp [hf]
  · rfl

/-- A change that keeps the items of a container keeps all items. -/
theorem items_alter_some (f : Container → Container) (hf : ∀ k, (f k).items = k.items)
    (c d : ContainerId) : (h.alter c fun k => some (f k)).items d = h.items d := by
  rw [items_eq_getD, container?_alter_some, items_eq_getD]
  split
  · cases h.container? d <;> simp [hf]
  · rfl

/-! ## Further handles -/

theorem share_of_container? {x : Item} {c : ContainerId} (hx : x.container? = some c) (n : Nat) :
    h.share n x = h.alter c fun k => some { k with handles := k.handles + n } := by
  simp [share, hx]

theorem share_of_leaf {x : Item} (hx : x.container? = none) (n : Nat) : h.share n x = h := by
  simp [share, hx]

@[simp] theorem items_share (n : Nat) (x : Item) (c : ContainerId) :
    (h.share n x).items c = h.items c := by
  cases hx : x.container? with
  | none => rw [share_of_leaf hx]
  | some d =>
    rw [share_of_container? hx, items_alter_some]
    intro k
    rfl

@[simp] theorem owner_share (n : Nat) (x : Item) (c : ContainerId) :
    (h.share n x).owner c = h.owner c := by
  cases hx : x.container? with
  | none => rw [share_of_leaf hx]
  | some d =>
    rw [share_of_container? hx, owner_alter_some]
    intro k
    rfl

@[simp] theorem alive_share (n : Nat) (x : Item) (c : ContainerId) :
    (h.share n x).alive c = h.alive c := by
  cases hx : x.container? with
  | none => rw [share_of_leaf hx]
  | some d => rw [share_of_container? hx, alive_alter_some]

@[simp] theorem created_share (n : Nat) (x : Item) : (h.share n x).created = h.created := by
  cases hx : x.container? with
  | none => rw [share_of_leaf hx]
  | some d => rw [share_of_container? hx, created_alter]

@[simp] theorem tracker?_share (n : Nat) (x : Item) (t : TrackerId) :
    (h.share n x).tracker? t = h.tracker? t := by
  cases hx : x.container? with
  | none => rw [share_of_leaf hx]
  | some d => rw [share_of_container? hx, tracker?_alter]

@[simp] theorem items_shareAll (xs : List Item) (c : ContainerId) :
    (h.shareAll xs).items c = h.items c := by
  induction xs generalizing h with
  | nil => rfl
  | cons x xs ih => exact ih.trans (items_share 1 x c)

@[simp] theorem alive_shareAll (xs : List Item) (c : ContainerId) :
    (h.shareAll xs).alive c = h.alive c := by
  induction xs generalizing h with
  | nil => rfl
  | cons x xs ih => exact ih.trans (alive_share 1 x c)

@[simp] theorem tracker?_shareAll (xs : List Item) (t : TrackerId) :
    (h.shareAll xs).tracker? t = h.tracker? t := by
  induction xs generalizing h with
  | nil => rfl
  | cons x xs ih => exact ih.trans (tracker?_share 1 x t)

/-! ## Appending -/

theorem items_push {c : ContainerId} (hc : h.alive c = true) (x : Item) (d : ContainerId) :
    (h.push c x).items d = if d = c then (h.items c).push x else h.items d := by
  obtain ⟨k, hk⟩ := alive_iff.1 hc
  rw [items_eq_getD, push, container?_alter_some]
  by_cases hd : d = c
  · subst hd
    simp [items, hk]
  · rw [if_neg (Ne.symm hd), if_neg hd, items_eq_getD]

/-- What a container holds after the appending is what it held before or the new element at the end. -/
theorem getElem?_items_push {c d : ContainerId} (hc : h.alive c = true) {x z : Item} {k : Nat}
    (hz : ((h.push c x).items d)[k]? = some z) :
    (h.items d)[k]? = some z ∨ (d = c ∧ k = (h.items c).size) ∧ z = x := by
  rw [items_push hc] at hz
  by_cases hd : d = c
  · subst hd
    rw [if_pos rfl, Array.getElem?_push] at hz
    by_cases hk : k = (h.items d).size
    · rw [if_pos hk] at hz
      exact .inr ⟨⟨rfl, hk⟩, (Option.some.inj hz).symm⟩
    · rw [if_neg hk] at hz
      exact .inl hz
  · rw [if_neg hd] at hz
    exact .inl hz

@[simp] theorem owner_push (c : ContainerId) (x : Item) (d : ContainerId) :
    (h.push c x).owner d = h.owner d := by
  rw [push, owner_alter_some]
  intro k
  rfl

@[simp] theorem alive_push (c : ContainerId) (x : Item) (d : ContainerId) :
    (h.push c x).alive d = h.alive d := by
  rw [push, alive_alter_some]

@[simp] theorem created_push (c : ContainerId) (x : Item) : (h.push c x).created = h.created := by
  rw [push, created_alter]

@[simp] theorem tracker?_push (c : ContainerId) (x : Item) (t : TrackerId) :
    (h.push c x).tracker? t = h.tracker? t := by
  rw [push, tracker?_alter]

/-! ## Creation -/

/-- Compaction changes no container. -/
@[simp] theorem containers_compact (t : TrackerId) : (h.compact t).containers = h.containers := by
  unfold compact
  cases h.tracker? t with
  | none => rfl
  | some account =>
    by_cases hfull : account.registry.size ≥ account.compactionBound
    · simp only [hfull, if_true]
      rfl
    · simp only [hfull, if_false]

/-- Compaction changes nothing but the registry of the tracker. -/
theorem exists_tracker?_compact {t : TrackerId} {account : Tracker}
    (ht : h.tracker? t = some account) :
    ∃ registry, (h.compact t).tracker? t = some { account with registry := registry } := by
  unfold compact
  rw [ht]
  by_cases hfull : account.registry.size ≥ account.compactionBound
  · exact ⟨account.registry.filter h.alive, by simp [hfull, ht]⟩
  · exact ⟨account.registry, by simp [hfull, ht]⟩

@[simp] theorem created_enroll (t : TrackerId) (xs : Array Item) :
    (h.enroll t xs).created = h.created + 1 := by
  simp [enroll, created, adjust]

theorem container?_enroll (t : TrackerId) (xs : Array Item) (c : ContainerId) :
    (h.enroll t xs).container? c
      = if c = h.created then some ⟨xs, t, 1⟩ else h.container? c := by
  simp only [enroll, container?, adjust, containers_compact, created, Array.getElem?_push]
  by_cases hc : c = h.containers.size <;> simp [hc]

theorem items_enroll (t : TrackerId) (xs : Array Item) (c : ContainerId) :
    (h.enroll t xs).items c = if c = h.created then xs else h.items c := by
  rw [items_eq_getD, container?_enroll, items_eq_getD]
  split <;> rfl

/-- An empty container adds no items. -/
@[simp] theorem items_enroll_empty (t : TrackerId) (c : ContainerId) :
    (h.enroll t #[]).items c = h.items c := by
  rw [items_enroll]
  by_cases hc : c = h.created
  · rw [if_pos hc, items_of_not_alive (not_alive_of_created_le (Nat.le_of_eq hc.symm))]
  · rw [if_neg hc]

theorem owner_enroll (t : TrackerId) (xs : Array Item) (c : ContainerId) :
    (h.enroll t xs).owner c = if c = h.created then t else h.owner c := by
  rw [owner_eq_getD, container?_enroll, owner_eq_getD]
  split <;> rfl

theorem alive_enroll (t : TrackerId) (xs : Array Item) (c : ContainerId) :
    (h.enroll t xs).alive c = (decide (c = h.created) || h.alive c) := by
  rw [alive_eq_isSome, container?_enroll, alive_eq_isSome]
  split <;> simp [*]

/-- The account of a tracker after a further container of it. -/
theorem exists_tracker?_enroll {t : TrackerId} {account : Tracker}
    (ht : h.tracker? t = some account) (xs : Array Item) :
    ∃ registry, (h.enroll t xs).tracker? t
      = some ⟨account.limit, account.live + 1, max account.peak (account.live + 1), registry⟩ := by
  obtain ⟨registry, hc⟩ := exists_tracker?_compact ht
  refine ⟨registry.push h.created, ?_⟩
  show ((h.compact t).adjust t (Tracker.register h.created)).tracker? t = _
  rw [tracker?_adjust, if_pos rfl, hc]
  rfl

/-- A creation is accepted if the tracker has room, and then it gives the next number. -/
theorem create_eq_ok_iff {t : TrackerId} {xs : Array Item} {c : ContainerId} {h' : Heap} :
    h.create t xs = (.ok c, h')
      ↔ (∃ account, h.tracker? t = some account ∧ account.live < account.limit)
        ∧ c = h.created ∧ h' = h.enroll t xs := by
  cases ht : h.tracker? t with
  | none => simp [create_of_none ht]
  | some account =>
    by_cases hroom : account.live < account.limit
    · simp [create_of_lt ht hroom, hroom, eq_comm]
    · simp [create_of_le ht (Nat.le_of_not_lt hroom), hroom]

/-- A refused creation gives up what the container was to hold, and does nothing else. -/
theorem eq_of_create_eq_error {t : TrackerId} {xs : Array Item} {e : ValueFault} {h' : Heap}
    (hc : h.create t xs = (.error e, h')) : h' = h.release xs.toList := by
  cases ht : h.tracker? t with
  | none =>
    rw [create_of_none ht] at hc
    exact (Prod.mk.inj hc).2.symm
  | some account =>
    by_cases hroom : account.live < account.limit
    · rw [create_of_lt ht hroom] at hc
      cases hc
    · rw [create_of_le ht (Nat.le_of_not_lt hroom)] at hc
      exact (Prod.mk.inj hc).2.symm

/-- A refused creation of an empty container changes nothing. -/
theorem eq_of_create_empty_eq_error {t : TrackerId} {e : ValueFault} {h' : Heap}
    (hc : h.create t #[] = (.error e, h')) : h' = h := by
  rw [eq_of_create_eq_error hc]
  exact release_nil h

end Heap

end BoundedVm
