import BoundedVm.Heap.Basic
import Mathlib.Data.List.Forall2
import Mathlib.Data.List.Nodup
import Mathlib.Data.List.Infix

/-! # Other numbers for the same things

What an execution makes is numbered in the order of creation, and other executions on the same heap take
numbers too. A `Naming` gives the numbers that the containers, trackers and allocations of one heap have
in another. It grows while things are made, and what it says already stays true.

* `Renaming`: other numbers for the numbers below some count, none of them given twice.
* `Naming`: a renaming for each of the three kinds of numbers.
* `Naming.Renames`: which items of the two heaps are the same. -/

namespace BoundedVm

/-- Other numbers for the numbers below some count, none of them given twice. -/
structure Renaming where
  /-- The other number for each of the numbers, in order. -/
  images : List Nat
  nodup : images.Nodup

namespace Renaming

variable {r r' r'' : Renaming} {a a' b b' n k bound : Nat}

/-- Whether the other number for `a` is `b`. -/
def Maps (r : Renaming) (a b : Nat) : Prop := r.images[a]? = some b

theorem Maps.mem (hab : r.Maps a b) : b ∈ r.images :=
  List.mem_of_getElem? hab

/-- Numbers are equal exactly if their other numbers are. -/
theorem Maps.eq_iff (hab : r.Maps a b) (hab' : r.Maps a' b') : a = a' ↔ b = b' := by
  constructor
  · rintro rfl
    exact Option.some.inj (hab.symm.trans hab')
  · rintro rfl
    obtain ⟨ha, hb⟩ := List.getElem?_eq_some_iff.mp hab
    obtain ⟨ha', hb'⟩ := List.getElem?_eq_some_iff.mp hab'
    exact (List.Nodup.getElem_inj_iff r.nodup).mp (hb.trans hb'.symm)

/-! ## Growth -/

/-- Whether a renaming goes on with numbers that are not below a bound. -/
structure Grows (bound : Nat) (r r' : Renaming) : Prop where
  starts : r.images <+: r'.images
  fresh : ∀ b ∈ r'.images, b ∈ r.images ∨ bound ≤ b

theorem Grows.refl : Grows bound r r :=
  ⟨List.prefix_rfl, fun _ hb => .inl hb⟩

theorem Grows.trans (h : Grows bound r r') (h' : Grows bound r' r'') : Grows bound r r'' := by
  refine ⟨h.starts.trans h'.starts, fun b hb => ?_⟩
  obtain hb' | hb' := h'.fresh b hb
  · exact h.fresh b hb'
  · exact .inr hb'

theorem Maps.mono (hab : r.Maps a b) (h : Grows bound r r') : r'.Maps a b := by
  obtain ⟨new, hnew⟩ := h.starts
  have ha := (List.getElem?_eq_some_iff.mp hab).1
  unfold Maps
  rw [← hnew, List.getElem?_append_left ha]
  exact hab

/-! ## Counts -/

/-- Whether the numbers below `n` have other numbers, all of them below `k`. -/
structure Fits (r : Renaming) (n k : Nat) : Prop where
  length : r.images.length = n
  lt : ∀ b ∈ r.images, b < k

theorem Fits.notMem (hr : r.Fits n k) : k ∉ r.images :=
  fun hk => Nat.lt_irrefl k (hr.lt k hk)

theorem Fits.mono (hr : r.Fits n k) {k' : Nat} (hk : k ≤ k') : r.Fits n k' :=
  ⟨hr.length, fun b hb => Nat.lt_of_lt_of_le (hr.lt b hb) hk⟩

/-- The renaming of one number more. -/
def extend (r : Renaming) (b : Nat) (hb : b ∉ r.images) : Renaming where
  images := r.images ++ [b]
  nodup := List.nodup_append.mpr ⟨r.nodup, List.nodup_singleton b, by
    rintro x hx y hy rfl
    exact hb (List.mem_singleton.mp hy ▸ hx)⟩

@[simp] theorem mem_images_extend {hk : k ∉ r.images} :
    b ∈ (r.extend k hk).images ↔ b ∈ r.images ∨ b = k := by
  simp [extend]

theorem Fits.extend (hr : r.Fits n k) : (r.extend k hr.notMem).Fits (n + 1) (k + 1) where
  length := by simp [Renaming.extend, hr.length]
  lt b hb := by
    obtain hb | rfl := mem_images_extend.1 hb
    · exact Nat.lt_succ_of_lt (hr.lt b hb)
    · exact Nat.lt_succ_self b

theorem Fits.notMem_extend_iff (hr : r.Fits n k) :
    b ∉ (r.extend k hr.notMem).images ↔ b ∉ r.images ∧ b ≠ k := by
  rw [mem_images_extend, not_or]

/-- The further number is the next one. -/
theorem Fits.maps_extend_iff (hr : r.Fits n k) :
    (r.extend k hr.notMem).Maps a b ↔ r.Maps a b ∨ a = n ∧ b = k := by
  unfold Maps Renaming.extend
  rw [List.getElem?_append, hr.length]
  by_cases ha : a < n
  · simp [ha, Nat.ne_of_lt ha]
  · -- from the count on the renaming has said nothing
    have hnone : r.images[a]? = none := List.getElem?_eq_none (hr.length.le.trans (Nat.le_of_not_lt ha))
    rw [if_neg ha, hnone, List.getElem?_singleton]
    have hfirst : a - n = 0 ↔ a = n := by omega
    simp [hfirst, eq_comm]

theorem Fits.maps_extend (hr : r.Fits n k) : (r.extend k hr.notMem).Maps n k :=
  hr.maps_extend_iff.2 (.inr ⟨rfl, rfl⟩)

theorem Fits.grows_extend (hr : r.Fits n k) (hk : bound ≤ k) :
    Grows bound r (r.extend k hr.notMem) where
  starts := List.prefix_append r.images [k]
  fresh b hb := by
    obtain hb | rfl := mem_images_extend.1 hb
    · exact .inl hb
    · exact .inr hk

/-- Numbers that are given already are none of those that a renaming goes on with. -/
theorem Grows.notMem (h : Grows bound r r') (hr : r''.Fits n bound)
    (hdisjoint : ∀ b ∈ r''.images, b ∉ r.images) : ∀ b ∈ r''.images, b ∉ r'.images := by
  intro b hb hb'
  obtain hb' | hb' := h.fresh b hb'
  · exact hdisjoint b hb hb'
  · exact absurd (hr.lt b hb) (Nat.not_lt.mpr hb')

theorem Fits.lt_of_maps (hr : r.Fits n k) (hab : r.Maps a b) : a < n :=
  hr.length ▸ (List.getElem?_eq_some_iff.mp hab).1

/-- The numbers below `n` as they are. -/
def same (n : Nat) : Renaming := ⟨List.range n, List.nodup_range⟩

theorem fits_same (n : Nat) : (same n).Fits n n :=
  ⟨List.length_range, fun _ hb => List.mem_range.mp hb⟩

theorem maps_same (ha : a < n) : (same n).Maps a a :=
  List.getElem?_range ha

end Renaming

/-- The numbers that the things of one heap have in another. -/
structure Naming where
  containers : Renaming
  trackers : Renaming
  allocations : Renaming

namespace Naming

variable {w w' w'' : Naming} {base : Heap}

/-- Whether a naming goes on with numbers that were not given yet in some heap. -/
structure Grows (base : Heap) (w w' : Naming) : Prop where
  containers : w.containers.Grows base.created w'.containers
  trackers : w.trackers.Grows base.trackers.size w'.trackers
  allocations : w.allocations.Grows base.allocations w'.allocations

theorem Grows.refl : Grows base w w := ⟨.refl, .refl, .refl⟩

theorem Grows.trans (h : Grows base w w') (h' : Grows base w' w'') : Grows base w w'' :=
  ⟨h.containers.trans h'.containers, h.trackers.trans h'.trackers,
    h.allocations.trans h'.allocations⟩

/-- What is named stays named if it does not matter which numbers are new. -/
theorem Grows.forget (h : Grows base w w') : Grows .empty w w' :=
  ⟨⟨h.containers.starts, fun _ _ => .inr (Nat.zero_le _)⟩,
    ⟨h.trackers.starts, fun _ _ => .inr (Nat.zero_le _)⟩,
    ⟨h.allocations.starts, fun _ _ => .inr (Nat.zero_le _)⟩⟩

/-- Whether two namings have no container and no tracker in common. -/
structure Apart (w v : Naming) : Prop where
  containers : ∀ d ∈ w.containers.images, d ∉ v.containers.images
  trackers : ∀ u ∈ w.trackers.images, u ∉ v.trackers.images

theorem Apart.symm (h : w.Apart w') : w'.Apart w :=
  ⟨fun d hd hd' => h.containers d hd' hd, fun u hu hu' => h.trackers u hu' hu⟩

/-! ## The same items -/

/-- Whether two items are the same but for numbers. -/
inductive Renames (w : Naming) : Item → Item → Prop
  | null : Renames w .null .null
  | boolean (b : Bool) : Renames w (.boolean b) (.boolean b)
  | integer {a b : Nat} (hab : w.allocations.Maps a b) (i : Integer) :
    Renames w (.integer a i) (.integer b i)
  | bytes {a b : Nat} (hab : w.allocations.Maps a b) (content : List UInt8) :
    Renames w (.bytes a content) (.bytes b content)
  | pointer (script position : Nat) : Renames w (.pointer script position) (.pointer script position)
  | array {c d : ContainerId} (hcd : w.containers.Maps c d) : Renames w (.array c) (.array d)
  | struct {c d : ContainerId} (hcd : w.containers.Maps c d) : Renames w (.struct c) (.struct d)

/-- Whether two containers are the same but for numbers. -/
structure RenamesContainer (w : Naming) (k l : Container) : Prop where
  items : List.Forall₂ w.Renames k.items.toList l.items.toList
  owner : w.trackers.Maps k.owner l.owner
  handles : k.handles = l.handles

/-- Whether two accounts are the same but for numbers. -/
structure RenamesTracker (w : Naming) (t u : Tracker) : Prop where
  limit : t.limit = u.limit
  live : t.live = u.live
  peak : t.peak = u.peak
  registry : List.Forall₂ w.containers.Maps t.registry.toList u.registry.toList

variable {x x' y y' : Item} {xs ys : List Item}

theorem Renames.mono (h : w.Renames x y) (hw : Grows base w w') : w'.Renames x y := by
  cases h with
  | null => exact .null
  | boolean b => exact .boolean b
  | integer hab i => exact .integer (hab.mono hw.allocations) i
  | bytes hab content => exact .bytes (hab.mono hw.allocations) content
  | pointer script position => exact .pointer script position
  | array hcd => exact .array (hcd.mono hw.containers)
  | struct hcd => exact .struct (hcd.mono hw.containers)

theorem forall₂_mono (h : List.Forall₂ w.Renames xs ys) (hw : Grows base w w') :
    List.Forall₂ w'.Renames xs ys :=
  h.imp fun _ _ hxy => hxy.mono hw

theorem RenamesContainer.mono {k l : Container} (h : w.RenamesContainer k l)
    (hw : Grows base w w') : w'.RenamesContainer k l :=
  ⟨forall₂_mono h.items hw, h.owner.mono hw.trackers, h.handles⟩

theorem RenamesTracker.mono {t u : Tracker} (h : w.RenamesTracker t u) (hw : Grows base w w') :
    w'.RenamesTracker t u :=
  ⟨h.limit, h.live, h.peak, h.registry.imp fun _ _ hcd => hcd.mono hw.containers⟩

/-- Items are the same reference exactly if their renamed ones are. -/
theorem Renames.eq_iff (h : w.Renames x y) (h' : w.Renames x' y') : x = x' ↔ y = y' := by
  -- items of different forms are different under all names
  cases h <;> cases h' <;> try simp only [reduceCtorEq]
  case integer.integer hab i _ _ hab' j => rw [Item.integer.injEq, Item.integer.injEq, hab.eq_iff hab']
  case bytes.bytes hab s _ _ hab' t => rw [Item.bytes.injEq, Item.bytes.injEq, hab.eq_iff hab']
  case array.array hcd _ _ hcd' => rw [Item.array.injEq, Item.array.injEq, hcd.eq_iff hcd']
  case struct.struct hcd _ _ hcd' => rw [Item.struct.injEq, Item.struct.injEq, hcd.eq_iff hcd']

theorem Renames.container? (h : w.Renames x y) :
    Option.Rel w.containers.Maps x.container? y.container? := by
  cases h with
  | array hcd => exact .some hcd
  | struct hcd => exact .some hcd
  | _ => exact .none

theorem Renames.kind_eq (h : w.Renames x y) : x.kind = y.kind := by
  cases h <;> rfl

theorem Renames.isStruct_eq (h : w.Renames x y) : x.isStruct = y.isStruct := by
  cases h <;> rfl

theorem Renames.item (kind : Compound) {c d : ContainerId} (hcd : w.containers.Maps c d) :
    w.Renames (kind.item c) (kind.item d) := by
  cases kind with
  | array => exact .array hcd
  | struct => exact .struct hcd

end Naming

end BoundedVm
