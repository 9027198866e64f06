import BoundedVm.Json.Parse
import BoundedVm.Wire.Fault

/-! # Snapshots of the chain state

A snapshot maps storage keys to bytes. A `StorageKey` belongs to a contract, whose number may be
negative, and keys are ordered by this number and then by their bytes. The entries are kept in strictly
increasing order, so that `Snapshot.find` can stop at the first key outside the range it looks for. -/

namespace BoundedVm

/-- A key of a contract's storage. -/
structure StorageKey where
  id : Int32
  key : List UInt8
  deriving DecidableEq

namespace StorageKey

/-- Whether some bytes come before others, the first difference deciding. -/
def before : List UInt8 → List UInt8 → Bool
  | _, [] => false
  | [], _ :: _ => true
  | a :: as, b :: bs => if a = b then before as bs else a < b

theorem before_iff {a b : List UInt8} : before a b = true ↔ a < b := by
  fun_induction before a b with
  | case1 => simp
  | case2 => simp
  | case3 a as bs ih => simp [ih]
  | case4 a as b bs h => simp [List.cons_lt_cons_iff, h]

/-- The order of keys: by contract, then by bytes from the first one. -/
instance : LT StorageKey where
  lt a b := a.id < b.id ∨ a.id = b.id ∧ a.key < b.key

instance (a b : StorageKey) : Decidable (a < b) :=
  decidable_of_iff (a.id < b.id ∨ a.id = b.id ∧ before a.key b.key) (by rw [before_iff]; exact Iff.rfl)

theorem lt_def {a b : StorageKey} : a < b ↔ a.id < b.id ∨ a.id = b.id ∧ a.key < b.key := Iff.rfl

/-- How two keys are ordered. -/
def order (a b : StorageKey) : Ordering :=
  if a < b then .lt else if a = b then .eq else .gt

theorem lt_trans {a b c : StorageKey} (h₁ : a < b) (h₂ : b < c) : a < c := by
  rw [lt_def] at *
  -- the contract decides unless it is the same in both steps
  rcases h₁ with h₁ | ⟨e₁, h₁⟩ <;> rcases h₂ with h₂ | ⟨e₂, h₂⟩
  · exact .inl (Int32.lt_trans h₁ h₂)
  · exact .inl (e₂ ▸ h₁)
  · exact .inl (e₁ ▸ h₂)
  · exact .inr ⟨e₁.trans e₂, List.lt_trans h₁ h₂⟩

theorem lt_of_not_lt_of_ne {a b : StorageKey} (h : ¬ a < b) (hne : a ≠ b) : b < a := by
  rw [lt_def, not_or] at h
  obtain ⟨hid, hkey⟩ := h
  rw [lt_def]
  by_cases e : a.id = b.id
  · refine .inr ⟨e.symm, Decidable.by_contra fun hn => hne ?_⟩
    have hk : a.key = b.key :=
      List.le_antisymm (List.not_lt.mp hn) (List.not_lt.mp fun hl => hkey ⟨e, hl⟩)
    cases a
    cases b
    simp_all
  · exact .inl ((Int32.lt_or_lt_of_ne e).resolve_left hid)

end StorageKey

/-- The number of the contract that keeps the deployed contracts. -/
def contractRegistryId : Int32 := -1

/-- The number of the contract that keeps the blocks. -/
def blockRegistryId : Int32 := -4

/-- The key under which a deployed contract is kept. -/
def contractKey (account : Account) : StorageKey :=
  ⟨contractRegistryId, 8 :: account.bytes⟩

/-- The key under which a block is kept. -/
def blockKey (block : ObjectId) : StorageKey :=
  ⟨blockRegistryId, 5 :: block.bytes⟩

/-- A snapshot of the chain state: entries in strictly increasing order of their keys. -/
structure Snapshot where
  entries : List (StorageKey × List UInt8)
  sorted : entries.Pairwise fun a b => a.1 < b.1

namespace Snapshot

/-- The snapshot without entries. -/
def empty : Snapshot := ⟨[], .nil⟩

instance : Inhabited Snapshot := ⟨empty⟩

/-- Puts an entry in its place among sorted entries, instead of one with the same key. -/
def insertEntry (k : StorageKey) (v : List UInt8) :
    List (StorageKey × List UInt8) → List (StorageKey × List UInt8)
  | [] => [(k, v)]
  | e :: rest =>
    if k < e.1 then (k, v) :: e :: rest
    else if k = e.1 then (k, v) :: rest
    else e :: insertEntry k v rest

/-- The keys after an insertion are those before it and the inserted one. -/
theorem key_of_mem_insertEntry {k : StorageKey} {v : List UInt8}
    {entries : List (StorageKey × List UInt8)} {e : StorageKey × List UInt8}
    (h : e ∈ insertEntry k v entries) : e = (k, v) ∨ e ∈ entries := by
  induction entries with
  | nil => simpa [insertEntry] using h
  | cons d rest ih =>
    rw [insertEntry] at h
    split at h
    · simpa using h
    · split at h
      · simp only [List.mem_cons] at h ⊢
        rcases h with h | h
        · exact .inl h
        · exact .inr (.inr h)
      · simp only [List.mem_cons] at h ⊢
        rcases h with h | h
        · exact .inr (.inl h)
        · exact (ih h).imp_right .inr

/-- An insertion keeps the entries sorted. -/
theorem pairwise_insertEntry (k : StorageKey) (v : List UInt8)
    {entries : List (StorageKey × List UInt8)} (h : entries.Pairwise fun a b => a.1 < b.1) :
    (insertEntry k v entries).Pairwise fun a b => a.1 < b.1 := by
  induction entries with
  | nil => simp [insertEntry]
  | cons d rest ih =>
    have hd := List.pairwise_cons.mp h
    rw [insertEntry]
    split
    · rename_i hlt
      refine List.pairwise_cons.mpr ⟨fun e he => ?_, h⟩
      rcases List.mem_cons.mp he with rfl | he
      · exact hlt
      · exact StorageKey.lt_trans hlt (hd.1 e he)
    · rename_i hnlt
      split
      · rename_i heq
        refine List.pairwise_cons.mpr ⟨fun e he => ?_, hd.2⟩
        have := hd.1 e he
        rwa [← heq] at this
      · rename_i hne
        refine List.pairwise_cons.mpr ⟨fun e he => ?_, ih hd.2⟩
        rcases key_of_mem_insertEntry he with rfl | he
        · exact StorageKey.lt_of_not_lt_of_ne hnlt hne
        · exact hd.1 e he

/-- The snapshot with a further entry, which replaces one of the same key. -/
def insert (k : StorageKey) (v : List UInt8) (s : Snapshot) : Snapshot :=
  ⟨insertEntry k v s.entries, pairwise_insertEntry k v s.sorted⟩

/-- The number of entries. -/
def size (s : Snapshot) : Nat := s.entries.length

/-- The bytes kept under a key. -/
def get? (s : Snapshot) (k : StorageKey) : Option (List UInt8) :=
  (s.entries.find? (·.1 = k)).map (·.2)

/-- Whether a key has an entry. -/
def contains (s : Snapshot) (k : StorageKey) : Bool :=
  s.entries.any (·.1 = k)

/-- The entries of a contract whose key starts with `stem`, in the order of the keys. The scan begins
at the stem itself and ends at the first key that does not match. -/
def find (s : Snapshot) (id : Int32) (stem : List UInt8) : List (StorageKey × List UInt8) :=
  (s.entries.dropWhile fun e => e.1 < ⟨id, stem⟩).takeWhile fun e =>
    e.1.id = id && stem.isPrefixOf e.1.key

/-! ## JSON -/

/-- An entry as it is written in a JSON text, key and value in hexadecimal. -/
structure WrittenEntry where
  id : Int32
  key : String
  value : String

namespace WrittenEntry

/-- The entry that a JSON document holds. -/
def ofJsonValue? (value : JsonValue) : Option WrittenEntry :=
  match value.record? ["id", "key", "value"] false with
  | some [some id, some key, some value] =>
    match id.integerIn? (-0x80000000) 0x80000000, key.text?, value.text? with
    | some id, some key, some value => some ⟨Int32.ofInt id, key, value⟩
    | _, _, _ => none
  | _ => none

/-- Puts a written entry into a snapshot. -/
def addTo (s : Snapshot) (e : WrittenEntry) : Except PayloadFault Snapshot :=
  match Hex.decode e.key.toList with
  | .error fault => .error (.hex fault)
  | .ok key =>
    match Hex.decode e.value.toList with
    | .error fault => .error (.hex fault)
    | .ok value => .ok (s.insert ⟨e.id, key⟩ value)

end WrittenEntry

/-- The written entries that a JSON document holds. -/
def writtenEntries? (value : JsonValue) : Option (List WrittenEntry) :=
  match value.record? ["entries"] false with
  | some [some (.array items)] => items.mapM WrittenEntry.ofJsonValue?
  | _ => none

/-- The snapshot that a JSON text holds. -/
def ofJson (source : String) : Except PayloadFault Snapshot :=
  match (JsonValue.parse? source).bind writtenEntries? with
  | some entries => entries.foldlM WrittenEntry.addTo empty
  | none => .error .badJson

end Snapshot

end BoundedVm
