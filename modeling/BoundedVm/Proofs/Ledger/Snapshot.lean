import BoundedVm.Ledger.Snapshot
import Mathlib.Data.List.Induction

/-! # What a snapshot keeps

A snapshot is put together by insertions, and what it keeps under a key is what was last inserted there.

* `Snapshot.get?_insert`: what one insertion changes.
* `Snapshot.get?_ofEntries`: what is kept after any insertions. -/

namespace BoundedVm

theorem blockKey_injective : Function.Injective blockKey := by
  intro a b hab
  exact Digest.ext (List.cons.inj (congrArg StorageKey.key hab)).2

/-- Contracts and blocks are kept under keys of different numbers. -/
theorem contractKey_ne_blockKey (account : Account) (block : ObjectId) :
    contractKey account ≠ blockKey block :=
  fun h => absurd (congrArg StorageKey.id h) (by decide : contractRegistryId ≠ blockRegistryId)

namespace Snapshot

/-- A key has an entry if something is kept under it. -/
theorem contains_eq_isSome_get? (s : Snapshot) (k : StorageKey) :
    s.contains k = (s.get? k).isSome := by
  rw [contains, get?, Option.isSome_map, List.isSome_find?]

/-- An insertion is found under its own key and hides nothing else, in whatever order the entries
are. -/
theorem find?_insertEntry (k k' : StorageKey) (v : List UInt8)
    (entries : List (StorageKey × List UInt8)) :
    (insertEntry k v entries).find? (·.1 = k')
      = if k' = k then some (k, v) else entries.find? (·.1 = k') := by
  induction entries with
  | nil =>
    by_cases hk : k' = k
    · simp [insertEntry, hk]
    · simp [insertEntry, hk, Ne.symm hk]
  | cons e rest ih =>
    rw [insertEntry]
    by_cases hlt : k < e.1
    · rw [if_pos hlt]
      by_cases hk : k' = k
      · simp [hk]
      · simp [hk, Ne.symm hk]
    · rw [if_neg hlt]
      by_cases heq : k = e.1
      · rw [if_pos heq]
        by_cases hk : k' = k
        · simp [hk]
        · simp [hk, Ne.symm hk, ← heq]
      · rw [if_neg heq]
        by_cases he : e.1 = k'
        · -- the entry in front keeps its key
          have hk : k' ≠ k := fun hk => heq (hk.symm.trans he.symm)
          simp [he, hk]
        · simp [he, ih]

theorem get?_insert (k k' : StorageKey) (v : List UInt8) (s : Snapshot) :
    (s.insert k v).get? k' = if k' = k then some v else s.get? k' := by
  rw [get?, insert, find?_insertEntry]
  split <;> rfl

@[simp] theorem get?_empty (k : StorageKey) : empty.get? k = none := rfl

/-! ## Rows of insertions -/

/-- The snapshot after some insertions, the first of the list made first. -/
def ofEntries (entries : List (StorageKey × List UInt8)) : Snapshot :=
  entries.foldl (fun s e => s.insert e.1 e.2) empty

/-- What is kept under a key is what was last inserted under it. -/
theorem get?_ofEntries (entries : List (StorageKey × List UInt8)) (k : StorageKey) :
    (ofEntries entries).get? k = (entries.reverse.find? (·.1 = k)).map (·.2) := by
  induction entries using List.reverseRecOn with
  | nil => rfl
  | append_singleton entries e ih =>
    rw [ofEntries, List.foldl_append, List.foldl_cons, List.foldl_nil, get?_insert,
      List.reverse_append, List.reverse_singleton, List.singleton_append]
    by_cases hk : k = e.1
    · simp [hk]
    · rw [if_neg hk, List.find?_cons_of_neg (by simpa using Ne.symm hk)]
      exact ih

theorem get?_ofEntries_eq_none {entries : List (StorageKey × List UInt8)} {k : StorageKey}
    (hnone : ∀ v, (k, v) ∉ entries) : (ofEntries entries).get? k = none := by
  rw [get?_ofEntries, Option.map_eq_none_iff, List.find?_eq_none]
  intro e he hk
  obtain rfl : e.1 = k := by simpa using hk
  exact hnone e.2 (List.mem_reverse.mp he)

/-- An insertion is found if no other one was made under its key. -/
theorem get?_ofEntries_eq_some {entries : List (StorageKey × List UInt8)} {k : StorageKey}
    {v : List UInt8} (hmem : (k, v) ∈ entries) (hone : ∀ v', (k, v') ∈ entries → v' = v) :
    (ofEntries entries).get? k = some v := by
  rw [get?_ofEntries]
  cases hfind : entries.reverse.find? (·.1 = k) with
  | none =>
    have hnone := List.find?_eq_none.mp hfind (k, v) (List.mem_reverse.mpr hmem)
    exact absurd (decide_eq_true rfl) hnone
  | some e =>
    obtain rfl : e.1 = k := by simpa using List.find?_some hfind
    rw [Option.map_some, hone e.2 (List.mem_reverse.mp (List.mem_of_find?_eq_some hfind))]

end Snapshot

end BoundedVm
