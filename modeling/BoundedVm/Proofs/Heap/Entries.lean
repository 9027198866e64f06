import BoundedVm.Proofs.Heap.Accounts

/-! # The entries of registries

A registry lists containers in the order in which they were made. A creation adds one at the end, and
before that it may compact the registry: then the entries of containers that do not exist are removed,
and those of the others stay as they are.

* `Heap.entries`: the entries of the registry of a tracker.
* `Heap.entries_compact`: what compaction leaves of them.
* `Heap.entries_enroll`: the entries after a further container. -/

namespace BoundedVm

namespace Heap

variable {h h' : Heap} {t : TrackerId}

/-- The entries of the registry of a tracker. -/
def entries (h : Heap) (t : TrackerId) : List ContainerId :=
  match h.tracker? t with
  | some account => account.registry.toList
  | none => []

theorem registered_eq (h : Heap) (t : TrackerId) : h.registered t = (h.entries t).filter h.alive := by
  unfold registered entries
  cases h.tracker? t <;> rfl

theorem entries_of_tracker? {account : Tracker} (ht : h.tracker? t = some account) :
    h.entries t = account.registry.toList := by
  rw [entries, ht]

/-- The entries are read off the registry alone. -/
theorem entries_congr (ht : (h'.tracker? t).map Tracker.registry = (h.tracker? t).map Tracker.registry) :
    h'.entries t = h.entries t := by
  unfold entries
  cases hafter : h'.tracker? t <;> cases hbefore : h.tracker? t <;> simp_all

theorem entries_openTracker (limit : Nat) :
    (h.openTracker limit).2.entries t = if t = h.trackers.size then [] else h.entries t := by
  unfold entries
  rw [tracker?_openTracker]
  by_cases ht : t = h.trackers.size
  · rw [if_pos ht, if_pos ht]
  · rw [if_neg ht, if_neg ht]

theorem entries_forget (u : TrackerId) :
    (h.forget u).entries t = if u = t then [] else h.entries t := by
  unfold entries
  rw [forget, tracker?_adjust]
  by_cases hu : u = t
  · subst hu
    rw [if_pos rfl, if_pos rfl]
    cases h.tracker? u <;> rfl
  · rw [if_neg hu, if_neg hu]

/-! ## Compaction -/

/-- Once there are too many entries, compaction keeps those of the containers that exist. -/
theorem entries_compact {account : Tracker} (ht : h.tracker? t = some account) :
    (h.compact t).entries t = if account.compactionBound ≤ (h.entries t).length
      then (h.entries t).filter h.alive else h.entries t := by
  rw [entries_of_tracker? ht, Array.length_toList, compact, ht]
  by_cases hfull : account.compactionBound ≤ account.registry.size
  · simp [hfull, entries, ht]
  · simp [hfull, entries, ht]

theorem entries_compact_of_ne {u : TrackerId} (hu : u ≠ t) :
    (h.compact u).entries t = h.entries t := by
  unfold compact
  split
  · split
    · exact entries_congr (by rw [tracker?_adjust, if_neg hu])
    · rfl
  · rfl

/-- Compaction registers nothing and keeps the order. -/
theorem entries_compact_sublist (h : Heap) (t : TrackerId) :
    ((h.compact t).entries t).Sublist (h.entries t) := by
  cases ht : h.tracker? t with
  | none => simp [compact, ht]
  | some account =>
    rw [entries_compact ht]
    split
    · exact List.filter_sublist
    · exact .refl _

/-- What compaction removes does not exist. -/
theorem mem_entries_compact {c : ContainerId} (hc : c ∈ h.entries t) (halive : h.alive c = true) :
    c ∈ (h.compact t).entries t := by
  cases ht : h.tracker? t with
  | none => simpa [compact, ht] using hc
  | some account =>
    rw [entries_compact ht]
    split
    · exact List.mem_filter.mpr ⟨hc, halive⟩
    · exact hc

/-- A new container is registered after compaction. -/
theorem entries_enroll {account : Tracker} (ht : h.tracker? t = some account) (xs : Array Item) :
    (h.enroll t xs).entries t = (h.compact t).entries t ++ [h.created] := by
  obtain ⟨registry, hcompact⟩ := exists_tracker?_compact ht
  have hafter : (h.enroll t xs).tracker? t
      = some (Tracker.register h.created { account with registry := registry }) := by
    show ((h.compact t).adjust t (Tracker.register h.created)).tracker? t = _
    rw [tracker?_adjust, if_pos rfl, hcompact]
    rfl
  rw [entries_of_tracker? hafter, entries_of_tracker? hcompact]
  exact Array.toList_push

theorem entries_enroll_of_ne {u : TrackerId} (hu : u ≠ t) (xs : Array Item) :
    (h.enroll u xs).entries t = h.entries t :=
  entries_congr (congrArg _ (tracker?_enroll_of_ne hu xs))

end Heap

end BoundedVm
