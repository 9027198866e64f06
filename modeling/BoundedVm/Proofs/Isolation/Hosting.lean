import BoundedVm.Proofs.Heap.Accounts
import BoundedVm.Proofs.Isolation.Naming

/-! # One heap inside another

A heap hosts another one under a naming if what the naming names is the same in both. Beside that the
host may have anything, and the relation says as well that it still has there what it had at some earlier
time. That is why one proof for each change of a heap yields both that the change does in the host what
it does in the hosted heap, and that it does nothing else there.

* `Heap.Hosts`: the relation.
* `Heap.Hosts.alter`, `adjust`, `openTracker`, `allocate`, `append` and `enroll`: it holds on after each
  change. -/

namespace BoundedVm

/-- An account counts a further container in the same way under other numbers. -/
theorem Naming.RenamesTracker.register {w : Naming} {t u : Tracker} {c d : ContainerId}
    (h : w.RenamesTracker t u) (hcd : w.containers.Maps c d) :
    w.RenamesTracker (t.register c) (u.register d) where
  limit := h.limit
  live := by rw [Tracker.register, Tracker.register, h.live]
  peak := by rw [Tracker.register, Tracker.register, h.peak, h.live]
  registry := by
    rw [Tracker.register, Tracker.register, Array.toList_push, Array.toList_push]
    exact List.rel_append h.registry (.cons hcd .nil)

namespace Heap

/-! ## A container that no tracker counts yet -/

/-- The heap with a further container. -/
def append (a : Container) (h : Heap) : Heap :=
  { h with containers := h.containers.push (some a) }

@[simp] theorem created_append (a : Container) (h : Heap) :
    (h.append a).created = h.created + 1 := by
  simp [append, created]

theorem container?_append (a : Container) (h : Heap) (c : ContainerId) :
    (h.append a).container? c = if c = h.created then some a else h.container? c := by
  simp only [append, container?, created, Array.getElem?_push]
  by_cases hc : c = h.containers.size <;> simp [hc]

theorem created_compact (t : TrackerId) (h : Heap) : (h.compact t).created = h.created := by
  rw [created, containers_compact, created]

/-- To make a container is to compact the registry of its tracker, to have one more container, and to
count it. -/
theorem enroll_eq_adjust (t : TrackerId) (items : Array Item) (h : Heap) :
    h.enroll t items
      = ((h.compact t).append ⟨items, t, 1⟩).adjust t (Tracker.register h.created) := rfl

/-! ## The relation -/

/-- Whether at least as many numbers are given as in an earlier heap. -/
structure Follows (base k : Heap) : Prop where
  created : base.created ≤ k.created
  trackers : base.trackers.size ≤ k.trackers.size
  allocations : base.allocations ≤ k.allocations

theorem Follows.refl {k : Heap} : Follows k k := ⟨Nat.le_refl _, Nat.le_refl _, Nat.le_refl _⟩

/-- The heap `k` has everything that `h` has, under the names that `w` gives, and beside it what `base`
has. -/
structure Hosts (base : Heap) (w : Naming) (h k : Heap) : Prop where
  containers : w.containers.Fits h.created k.created
  trackers : w.trackers.Fits h.trackers.size k.trackers.size
  allocations : w.allocations.Fits h.allocations k.allocations
  container : ∀ {c d}, w.containers.Maps c d →
    Option.Rel w.RenamesContainer (h.container? c) (k.container? d)
  tracker : ∀ {t u}, w.trackers.Maps t u → Option.Rel w.RenamesTracker (h.tracker? t) (k.tracker? u)
  follows : base.Follows k
  container_beside : ∀ {d}, d ∉ w.containers.images → k.container? d = base.container? d
  tracker_beside : ∀ {u}, u ∉ w.trackers.images → k.tracker? u = base.tracker? u

theorem option_rel_cases {α β : Type} {R : α → β → Prop} {a : Option α} {b : Option β}
    (hab : Option.Rel R a b) :
    a = none ∧ b = none ∨ ∃ x y, a = some x ∧ b = some y ∧ R x y := by
  cases hab with
  | none => exact .inl ⟨rfl, rfl⟩
  | some hxy => exact .inr ⟨_, _, rfl, rfl, hxy⟩

namespace Hosts

variable {base h k : Heap} {w : Naming} {c d : ContainerId} {t u : TrackerId}

/-- What the host has beside the hosted heap may be looked at from now on. -/
theorem rebase (e : Hosts base w h k) : Hosts k w h k :=
  { e with
    follows := .refl
    container_beside := fun _ => rfl
    tracker_beside := fun _ => rfl }

/-- What is beside a hosted heap stays as it is, so that another heap that is hosted there still is. -/
theorem of_beside {v : Naming} {h' k' : Heap} (e : Hosts k w h k) (e' : Hosts k v h' k')
    (hwv : w.Apart v) : Hosts k' w h k' where
  containers := e.containers.mono e'.follows.created
  trackers := e.trackers.mono e'.follows.trackers
  allocations := e.allocations.mono e'.follows.allocations
  container hcd := by
    rw [e'.container_beside (hwv.containers _ hcd.mem)]
    exact e.container hcd
  tracker htu := by
    rw [e'.tracker_beside (hwv.trackers _ htu.mem)]
    exact e.tracker htu
  follows := .refl
  container_beside := fun _ => rfl
  tracker_beside := fun _ => rfl

/-- A naming that goes on with new numbers stays apart from those of other heaps that are hosted. -/
theorem apart_of_grows {v v' : Naming} (e : Hosts base w h k) (hv : v.Grows k v')
    (hwv : w.Apart v) : w.Apart v' :=
  ⟨hv.containers.notMem e.containers hwv.containers, hv.trackers.notMem e.trackers hwv.trackers⟩

/-! ## What the two heaps show -/

theorem container?_cases (e : Hosts base w h k) (hcd : w.containers.Maps c d) :
    h.container? c = none ∧ k.container? d = none
      ∨ ∃ a b, h.container? c = some a ∧ k.container? d = some b ∧ w.RenamesContainer a b :=
  option_rel_cases (e.container hcd)

theorem items (e : Hosts base w h k) (hcd : w.containers.Maps c d) :
    List.Forall₂ w.Renames (h.items c).toList (k.items d).toList := by
  obtain ⟨hc, hd⟩ | ⟨a, b, hc, hd, hab⟩ := e.container?_cases hcd
  · simp [Heap.items, hc, hd]
  · simpa [Heap.items, hc, hd] using hab.items

theorem size_items (e : Hosts base w h k) (hcd : w.containers.Maps c d) :
    (h.items c).size = (k.items d).size :=
  (e.items hcd).length_eq

theorem getElem?_items (e : Hosts base w h k) (hcd : w.containers.Maps c d) (i : Nat) :
    Option.Rel w.Renames (h.items c)[i]? (k.items d)[i]? := by
  simpa using option_rel_getElem? (e.items hcd) i

theorem alive_eq (e : Hosts base w h k) (hcd : w.containers.Maps c d) : h.alive c = k.alive d := by
  obtain ⟨hc, hd⟩ | ⟨a, b, hc, hd, -⟩ := e.container?_cases hcd
  · simp [alive, hc, hd]
  · simp [alive, hc, hd]

theorem handles_eq (e : Hosts base w h k) (hcd : w.containers.Maps c d) :
    h.handles c = k.handles d := by
  obtain ⟨hc, hd⟩ | ⟨a, b, hc, hd, hab⟩ := e.container?_cases hcd
  · simp [handles, hc, hd]
  · simpa [handles, hc, hd] using hab.handles

theorem owner (e : Hosts base w h k) (hcd : w.containers.Maps c d) (hc : h.alive c = true) :
    w.trackers.Maps (h.owner c) (k.owner d) := by
  obtain ⟨hnone, -⟩ | ⟨a, b, hc, hd, hab⟩ := e.container?_cases hcd
  · simp [alive, hnone] at hc
  · simpa [Heap.owner, hc, hd] using hab.owner

/-- A tracker that has another name is there. -/
theorem exists_tracker? (e : Hosts base w h k) (htu : w.trackers.Maps t u) :
    ∃ a b, h.tracker? t = some a ∧ k.tracker? u = some b ∧ w.RenamesTracker a b := by
  obtain ⟨hnone, -⟩ | hsome := option_rel_cases (e.tracker htu)
  · have hlt : t < h.trackers.size := e.trackers.lt_of_maps htu
    exact absurd hlt (Nat.not_lt.mpr (Array.getElem?_eq_none_iff.mp hnone))
  · exact hsome

/-! ## Changes -/

theorem alter {f g : Container → Option Container} (e : Hosts base w h k)
    (hcd : w.containers.Maps c d)
    (hfg : ∀ a b, w.RenamesContainer a b → Option.Rel w.RenamesContainer (f a) (g b)) :
    Hosts base w (h.alter c f) (k.alter d g) where
  containers := by
    rw [created_alter, created_alter]
    exact e.containers
  trackers := e.trackers
  allocations := e.allocations
  container {c' d'} hcd' := by
    rw [container?_alter, container?_alter]
    by_cases hc : c = c'
    · have hd := (hcd.eq_iff hcd').mp hc
      rw [if_pos hc, if_pos hd]
      obtain ⟨hc, hd⟩ | ⟨a, b, hc, hd, hab⟩ := e.container?_cases hcd
      · rw [hc, hd]
        exact .none
      · rw [hc, hd]
        exact hfg a b hab
    · have hd := mt (hcd.eq_iff hcd').mpr hc
      rw [if_neg hc, if_neg hd]
      exact e.container hcd'
  tracker := e.tracker
  follows := by
    refine { e.follows with created := ?_ }
    rw [created_alter]
    exact e.follows.created
  container_beside {d'} hd' := by
    have hne : d ≠ d' := by
      rintro rfl
      exact hd' hcd.mem
    rw [container?_alter, if_neg hne]
    exact e.container_beside hd'
  tracker_beside := e.tracker_beside

theorem adjust {f g : Tracker → Tracker} (e : Hosts base w h k) (htu : w.trackers.Maps t u)
    (hfg : ∀ a b, w.RenamesTracker a b → w.RenamesTracker (f a) (g b)) :
    Hosts base w (h.adjust t f) (k.adjust u g) where
  containers := e.containers
  trackers := by simpa [Heap.adjust] using e.trackers
  allocations := e.allocations
  container := e.container
  tracker {t' u'} htu' := by
    rw [tracker?_adjust, tracker?_adjust]
    by_cases ht : t = t'
    · have hu := (htu.eq_iff htu').mp ht
      obtain ⟨a, b, ha, hb, hab⟩ := e.exists_tracker? htu
      rw [if_pos ht, if_pos hu, ha, hb]
      exact .some (hfg a b hab)
    · have hu := mt (htu.eq_iff htu').mpr ht
      rw [if_neg ht, if_neg hu]
      exact e.tracker htu'
  follows := by
    refine { e.follows with trackers := ?_ }
    simpa [Heap.adjust] using e.follows.trackers
  container_beside := e.container_beside
  tracker_beside {u'} hu' := by
    have hne : u ≠ u' := by
      rintro rfl
      exact hu' htu.mem
    rw [tracker?_adjust, if_neg hne]
    exact e.tracker_beside hu'

/-! ## New numbers -/

/-- A new allocation has a new number in both heaps. -/
theorem allocate (e : Hosts base w h k) :
    ∃ w', w.Grows base w' ∧ w'.allocations.Maps h.allocations k.allocations
      ∧ Hosts base w' h.allocate.2 k.allocate.2 := by
  let w' : Naming := { w with allocations := w.allocations.extend _ e.allocations.notMem }
  have hw : w.Grows base w' := ⟨.refl, .refl, e.allocations.grows_extend e.follows.allocations⟩
  refine ⟨w', hw, e.allocations.maps_extend, ?_⟩
  exact {
    containers := e.containers
    trackers := e.trackers
    allocations := e.allocations.extend
    container := fun hcd => option_rel_imp (fun _ _ hab => hab.mono hw) (e.container hcd)
    tracker := fun htu => option_rel_imp (fun _ _ hab => hab.mono hw) (e.tracker htu)
    follows := { e.follows with allocations := Nat.le_succ_of_le e.follows.allocations }
    container_beside := e.container_beside
    tracker_beside := e.tracker_beside }

/-- A new tracker has a new number in both heaps. -/
theorem openTracker (e : Hosts base w h k) (limit : Nat) :
    ∃ w', w.Grows base w' ∧ w'.trackers.Maps h.trackers.size k.trackers.size
      ∧ Hosts base w' (h.openTracker limit).2 (k.openTracker limit).2 := by
  let w' : Naming := { w with trackers := w.trackers.extend _ e.trackers.notMem }
  have hw : w.Grows base w' := ⟨.refl, e.trackers.grows_extend e.follows.trackers, .refl⟩
  refine ⟨w', hw, e.trackers.maps_extend, ?_⟩
  exact {
    containers := e.containers
    trackers := by simpa [Heap.openTracker] using e.trackers.extend
    allocations := e.allocations
    container := fun hcd => option_rel_imp (fun _ _ hab => hab.mono hw) (e.container hcd)
    tracker := fun {t u} htu => by
      rw [tracker?_openTracker, tracker?_openTracker]
      obtain htu | ⟨rfl, rfl⟩ := e.trackers.maps_extend_iff.1 htu
      · rw [if_neg (Nat.ne_of_lt (e.trackers.lt_of_maps htu)),
          if_neg (Nat.ne_of_lt (e.trackers.lt u htu.mem))]
        exact option_rel_imp (fun _ _ hab => hab.mono hw) (e.tracker htu)
      · rw [if_pos rfl, if_pos rfl]
        exact .some ⟨rfl, rfl, rfl, .nil⟩
    follows := by
      refine { e.follows with trackers := ?_ }
      simpa [Heap.openTracker] using Nat.le_succ_of_le e.follows.trackers
    container_beside := e.container_beside
    tracker_beside := fun {u} hu => by
      have hu := e.trackers.notMem_extend_iff.1 hu
      rw [tracker?_openTracker, if_neg hu.2]
      exact e.tracker_beside hu.1 }

/-- The registrations of containers that no longer exist are removed in both heaps or in none. -/
theorem compact (e : Hosts base w h k) (htu : w.trackers.Maps t u) :
    Hosts base w (h.compact t) (k.compact u) := by
  obtain ⟨a, b, ha, hb, hab⟩ := e.exists_tracker? htu
  have hfull : a.registry.size ≥ a.compactionBound ↔ b.registry.size ≥ b.compactionBound := by
    have hsize : a.registry.size = b.registry.size := hab.registry.length_eq
    rw [Tracker.compactionBound, Tracker.compactionBound, hab.live, hsize]
  unfold Heap.compact
  simp only [ha, hb]
  by_cases ha : a.registry.size ≥ a.compactionBound
  · rw [if_pos ha, if_pos (hfull.mp ha)]
    refine e.adjust htu fun a' b' hab' => { hab' with registry := ?_ }
    rw [Array.toList_filter, Array.toList_filter]
    refine List.rel_filter (fun c d hcd => ?_) hab.registry
    show h.alive c = true ↔ k.alive d = true
    rw [e.alive_eq hcd]
  · rw [if_neg ha, if_neg (mt hfull.mpr ha)]
    exact e

/-- A new container has a new number in both heaps. -/
theorem append (e : Hosts base w h k) {a b : Container} (hab : w.RenamesContainer a b) :
    ∃ w', w.Grows base w' ∧ w'.containers.Maps h.created k.created
      ∧ Hosts base w' (h.append a) (k.append b) := by
  let w' : Naming := { w with containers := w.containers.extend _ e.containers.notMem }
  have hw : w.Grows base w' := ⟨e.containers.grows_extend e.follows.created, .refl, .refl⟩
  refine ⟨w', hw, e.containers.maps_extend, ?_⟩
  exact {
    containers := by
      rw [created_append, created_append]
      exact e.containers.extend
    trackers := e.trackers
    allocations := e.allocations
    container := fun {c d} hcd => by
      rw [container?_append, container?_append]
      obtain hcd | ⟨rfl, rfl⟩ := e.containers.maps_extend_iff.1 hcd
      · rw [if_neg (Nat.ne_of_lt (e.containers.lt_of_maps hcd)),
          if_neg (Nat.ne_of_lt (e.containers.lt d hcd.mem))]
        exact option_rel_imp (fun _ _ hab => hab.mono hw) (e.container hcd)
      · rw [if_pos rfl, if_pos rfl]
        exact .some (hab.mono hw)
    tracker := fun htu => option_rel_imp (fun _ _ hab => hab.mono hw) (e.tracker htu)
    follows := by
      refine { e.follows with created := ?_ }
      rw [created_append]
      exact Nat.le_succ_of_le e.follows.created
    container_beside := fun {d} hd => by
      have hd := e.containers.notMem_extend_iff.1 hd
      rw [container?_append, if_neg hd.2]
      exact e.container_beside hd.1
    tracker_beside := e.tracker_beside }

/-- A container is made in both heaps, and its tracker counts it. -/
theorem enroll (e : Hosts base w h k) (htu : w.trackers.Maps t u) {xs ys : Array Item}
    (hxy : List.Forall₂ w.Renames xs.toList ys.toList) :
    ∃ w', w.Grows base w' ∧ w'.containers.Maps h.created k.created
      ∧ Hosts base w' (h.enroll t xs) (k.enroll u ys) := by
  obtain ⟨w', hw, hnew, e'⟩ :=
    (e.compact htu).append (a := ⟨xs, t, 1⟩) (b := ⟨ys, u, 1⟩) ⟨hxy, htu, rfl⟩
  rw [created_compact, created_compact] at hnew
  refine ⟨w', hw, hnew, ?_⟩
  rw [enroll_eq_adjust, enroll_eq_adjust]
  exact e'.adjust (htu.mono hw.trackers) fun _ _ hab => hab.register hnew

end Hosts

end Heap

end BoundedVm
