import BoundedVm.Proofs.Ledger.Snapshot

/-! # Searching a snapshot for a prefix

The search begins at the first key that is not before the stem and ends at the first one that does not
match. It finds every match nevertheless, for keys that begin with one stem stand together: between the
stem and a key that begins with it there are only keys that begin with it too.

* `StorageKey.matches_of_lt`: no gap lies between the stem and a match.
* `Snapshot.find_eq_filter`: the search finds what going through all entries would find.
* `Snapshot.Reflects`: what a snapshot answers after some insertions, and `Snapshot.search_exact` that it
  does so, whether the insertions come from a JSON text or are made one by one. -/

namespace BoundedVm

namespace StorageKey

theorem lt_irrefl (k : StorageKey) : ¬ k < k := by
  rw [lt_def]
  rintro (h | ⟨-, h⟩)
  · exact Int32.lt_irrefl h
  · exact List.lt_irrefl k.key h

/-! ## Keys with one stem -/

/-- Whether a key is one of a contract's and begins with a stem. -/
def Matches (id : Int32) (stem : List UInt8) (k : StorageKey) : Prop :=
  k.id = id ∧ stem <+: k.key

/-- A stem is not after what begins with it. -/
theorem not_lt_of_isPrefix {stem key : List UInt8} (h : stem <+: key) : ¬ key < stem := by
  induction stem generalizing key with
  | nil => exact List.not_lt_nil key
  | cons b stem ih =>
    obtain ⟨tail, rfl⟩ := h
    rw [List.cons_append, List.cons_lt_cons_iff]
    rintro (hb | ⟨-, hlt⟩)
    · exact UInt8.lt_irrefl b hb
    · exact ih (List.prefix_append stem tail) hlt

/-- What lies between a stem and something that begins with it begins with it too. -/
theorem isPrefix_of_lt {stem key key' : List UInt8} (hstem : ¬ key < stem) (hlt : key < key')
    (h : stem <+: key') : stem <+: key := by
  induction stem generalizing key key' with
  | nil => exact List.nil_prefix
  | cons b stem ih =>
    obtain ⟨tail, rfl⟩ := h
    cases key with
    | nil => exact absurd (List.nil_lt_cons b stem) hstem
    | cons a key =>
      rw [List.cons_append, List.cons_lt_cons_iff] at hlt
      rw [List.cons_lt_cons_iff, not_or] at hstem
      obtain ⟨rfl, htail⟩ := hlt.resolve_left hstem.1
      refine List.cons_prefix_cons.mpr ⟨rfl, ih (fun h => hstem.2 ⟨rfl, h⟩) htail ?_⟩
      exact List.prefix_append stem tail

variable {id : Int32} {stem : List UInt8} {k k' : StorageKey}

/-- No match is before the stem. -/
theorem Matches.not_lt (h : Matches id stem k) : ¬ k < ⟨id, stem⟩ := by
  rw [lt_def]
  rintro (hid | ⟨-, hkey⟩)
  · exact Int32.lt_irrefl (h.1 ▸ hid)
  · exact not_lt_of_isPrefix h.2 hkey

/-- A key that is neither before the stem nor after every match is a match itself. -/
theorem matches_of_lt (hstem : ¬ k < ⟨id, stem⟩) (hlt : k < k') (h : Matches id stem k') :
    Matches id stem k := by
  obtain ⟨rfl, hprefix⟩ := h
  rw [lt_def, not_or] at hstem
  rcases lt_def.1 hlt with hid | ⟨hid, hkey⟩
  · exact absurd hid hstem.1
  · exact ⟨hid, isPrefix_of_lt (fun h => hstem.2 ⟨hid, h⟩) hkey hprefix⟩

end StorageKey

namespace Snapshot

/-! ## The search -/

/-- What is taken off the front of a list is all that passes, if nothing passes after a refusal. -/
theorem takeWhile_eq_filter {α : Type} {p : α → Bool} {xs : List α}
    (h : xs.Pairwise fun x y => p y = true → p x = true) : xs.takeWhile p = xs.filter p := by
  induction xs with
  | nil => rfl
  | cons x xs ih =>
    obtain ⟨hx, hxs⟩ := List.pairwise_cons.mp h
    by_cases hp : p x = true
    · rw [List.takeWhile_cons_of_pos hp, List.filter_cons_of_pos hp, ih hxs]
    · have hnone : ∀ y ∈ xs, ¬ p y = true := fun y hy hpy => hp (hx y hy hpy)
      rw [List.takeWhile_cons_of_neg hp, List.filter_cons_of_neg hp,
        List.filter_eq_nil_iff.mpr hnone]

/-- Whether an entry is one of a contract's whose key begins with a stem. -/
def hits (id : Int32) (stem : List UInt8) (e : StorageKey × List UInt8) : Bool :=
  e.1.id = id && stem.isPrefixOf e.1.key

theorem hits_iff {id : Int32} {stem : List UInt8} {e : StorageKey × List UInt8} :
    hits id stem e = true ↔ e.1.Matches id stem := by
  simp [hits, StorageKey.Matches, List.isPrefixOf_iff_prefix]

/-- **The search is a filter.** It finds the entries that match, in the order of the keys. -/
theorem find_eq_filter (s : Snapshot) (id : Int32) (stem : List UInt8) :
    s.find id stem = s.entries.filter (hits id stem) := by
  obtain ⟨entries, hsorted⟩ := s
  show (entries.dropWhile fun e => e.1 < ⟨id, stem⟩).takeWhile (hits id stem) = _
  induction entries with
  | nil => rfl
  | cons e rest ih =>
    obtain ⟨hfirst, hrest⟩ := List.pairwise_cons.mp hsorted
    by_cases hlt : e.1 < ⟨id, stem⟩
    · have hmiss : ¬ hits id stem e = true := fun h => (hits_iff.1 h).not_lt hlt
      rw [List.dropWhile_cons_of_pos (by simpa using hlt), List.filter_cons_of_neg hmiss,
        ih hrest]
    · rw [List.dropWhile_cons_of_neg (by simpa using hlt)]
      -- no entry from here on is before the stem, for none is before the first one
      have hfrom : ∀ d ∈ e :: rest, ¬ d.1 < ⟨id, stem⟩ := by
        intro d hd hlow
        rcases List.mem_cons.mp hd with rfl | hd
        · exact hlt hlow
        · exact hlt (StorageKey.lt_trans (hfirst d hd) hlow)
      refine takeWhile_eq_filter (hsorted.imp_of_mem fun {d d'} hd _ hdd' h => ?_)
      exact hits_iff.2 (StorageKey.matches_of_lt (hfrom d hd) hdd' (hits_iff.1 h))

/-- The entries found are in strictly increasing order of their keys, so that none is found twice. -/
theorem pairwise_find (s : Snapshot) (id : Int32) (stem : List UInt8) :
    (s.find id stem).Pairwise fun a b => a.1 < b.1 := by
  rw [find_eq_filter]
  exact s.sorted.filter _

/-- An entry is kept if its value is what is kept under its key. -/
theorem mem_entries_iff (s : Snapshot) {k : StorageKey} {v : List UInt8} :
    (k, v) ∈ s.entries ↔ s.get? k = some v := by
  obtain ⟨entries, hsorted⟩ := s
  show (k, v) ∈ entries ↔ (entries.find? (·.1 = k)).map (·.2) = some v
  induction entries with
  | nil => simp
  | cons e rest ih =>
    obtain ⟨hfirst, hrest⟩ := List.pairwise_cons.mp hsorted
    by_cases he : e.1 = k
    · have hnot : (k, v) ∉ rest := by
        intro h
        have hlt : e.1 < k := hfirst (k, v) h
        rw [he] at hlt
        exact StorageKey.lt_irrefl k hlt
      rw [List.find?_cons_of_pos (by simpa using he)]
      simp [hnot, Prod.ext_iff, he, eq_comm]
    · have hne : (k, v) ≠ e := fun h => he (h ▸ rfl)
      rw [List.find?_cons_of_neg (by simpa using he), ← ih hrest]
      simp [hne]

theorem mem_find_iff (s : Snapshot) {id : Int32} {stem : List UInt8} {k : StorageKey}
    {v : List UInt8} :
    (k, v) ∈ s.find id stem ↔ k.Matches id stem ∧ s.get? k = some v := by
  rw [find_eq_filter, List.mem_filter, hits_iff, mem_entries_iff, and_comm]

/-! ## Insertions -/

/-- The snapshot after some further insertions. -/
def insertAll (s : Snapshot) (entries : List (StorageKey × List UInt8)) : Snapshot :=
  entries.foldl (fun s e => s.insert e.1 e.2) s

theorem insertAll_ofEntries (entries more : List (StorageKey × List UInt8)) :
    (ofEntries entries).insertAll more = ofEntries (entries ++ more) :=
  List.foldl_append.symm

/-- The value that was last inserted under a key. -/
def lastInserted (entries : List (StorageKey × List UInt8)) (k : StorageKey) :
    Option (List UInt8) :=
  (entries.reverse.find? (·.1 = k)).map (·.2)

/-- What a snapshot answers after some insertions. -/
structure Reflects (s : Snapshot) (inserted : List (StorageKey × List UInt8)) : Prop where
  get?_eq (k : StorageKey) : s.get? k = lastInserted inserted k
  contains_eq (k : StorageKey) : s.contains k = (lastInserted inserted k).isSome
  mem_find (id : Int32) (stem : List UInt8) (k : StorageKey) (v : List UInt8) :
    (k, v) ∈ s.find id stem
      ↔ k.id = id ∧ stem <+: k.key ∧ lastInserted inserted k = some v
  increasing (id : Int32) (stem : List UInt8) :
    (s.find id stem).Pairwise fun a b => a.1 < b.1

theorem reflects_ofEntries (inserted : List (StorageKey × List UInt8)) :
    (ofEntries inserted).Reflects inserted := by
  have hget : ∀ k, (ofEntries inserted).get? k = lastInserted inserted k :=
    get?_ofEntries inserted
  refine ⟨hget, fun k => ?_, fun id stem k v => ?_, pairwise_find _⟩
  · rw [contains_eq_isSome_get?, hget]
  · rw [mem_find_iff, hget, StorageKey.Matches, and_assoc]

/-! ## Snapshots of JSON texts -/

/-- Whether a written entry writes an entry. -/
structure WrittenEntry.Writes (written : WrittenEntry) (e : StorageKey × List UInt8) : Prop where
  id_eq : e.1.id = written.id
  key_eq : Hex.decode written.key.toList = .ok e.1.key
  value_eq : Hex.decode written.value.toList = .ok e.2

/-- Putting a written entry into a snapshot is inserting what it writes. -/
theorem WrittenEntry.addTo_eq_ok_iff {s s' : Snapshot} {written : WrittenEntry} :
    written.addTo s = .ok s' ↔ ∃ e, written.Writes e ∧ s' = s.insert e.1 e.2 := by
  constructor
  · intro h
    unfold addTo at h
    split at h
    · cases h
    · rename_i key hkey
      split at h
      · cases h
      · rename_i value hvalue
        cases h
        exact ⟨(⟨written.id, key⟩, value), ⟨rfl, hkey, hvalue⟩, rfl⟩
  · rintro ⟨⟨⟨id, key⟩, value⟩, ⟨rfl, hkey, hvalue⟩, rfl⟩
    simp only [addTo, hkey, hvalue]

/-- Written entries are put into a snapshot one after the other. -/
theorem foldlM_addTo_eq_ok_iff {written : List WrittenEntry} {s s' : Snapshot} :
    written.foldlM WrittenEntry.addTo s = .ok s'
      ↔ ∃ inserted, List.Forall₂ WrittenEntry.Writes written inserted ∧
        s' = s.insertAll inserted := by
  induction written generalizing s with
  | nil =>
    rw [List.foldlM_nil]
    constructor
    · rintro ⟨⟩
      exact ⟨[], .nil, rfl⟩
    · rintro ⟨_, ⟨⟩, rfl⟩
      rfl
  | cons w written ih =>
    rw [List.foldlM_cons]
    constructor
    · intro h
      cases hw : w.addTo s with
      | error e =>
        rw [hw] at h
        cases h
      | ok s₁ =>
        rw [hw] at h
        obtain ⟨e, he, rfl⟩ := WrittenEntry.addTo_eq_ok_iff.1 hw
        obtain ⟨inserted, hinserted, rfl⟩ := ih.mp h
        exact ⟨e :: inserted, .cons he hinserted, rfl⟩
    · rintro ⟨_, hinserted, rfl⟩
      cases hinserted with
      | @cons _ e _ inserted he hinserted =>
        rw [WrittenEntry.addTo_eq_ok_iff.2 ⟨e, he, rfl⟩]
        exact ih.mpr ⟨inserted, hinserted, rfl⟩

/-- A JSON text holds the snapshot after the insertions that its entries write. -/
theorem ofJson_eq_ok_iff {source : String} {s : Snapshot} :
    ofJson source = .ok s
      ↔ ∃ written inserted, (JsonValue.parse? source).bind writtenEntries? = some written ∧
        List.Forall₂ WrittenEntry.Writes written inserted ∧ s = ofEntries inserted := by
  unfold ofJson
  cases (JsonValue.parse? source).bind writtenEntries? with
  | none => simp
  | some written =>
    simp only [foldlM_addTo_eq_ok_iff, Option.some.injEq, exists_and_left, exists_eq_left']
    rfl

/-- **Searches and look-ups reflect the insertions.** After any row of insertions into an empty snapshot,
a search finds exactly the keys of the contract that begin with the stem, each once and in increasing
order, with the values last inserted; and under every key the value last inserted is kept. A JSON text
holds the snapshot after the insertions that its entries write, and any insertions after those continue
the row. -/
theorem search_exact :
    (∀ inserted, (ofEntries inserted).Reflects inserted) ∧
      (∀ source s, ofJson source = .ok s
        ↔ ∃ written inserted, (JsonValue.parse? source).bind writtenEntries? = some written ∧
          List.Forall₂ WrittenEntry.Writes written inserted ∧ s = ofEntries inserted) ∧
      ∀ inserted more, ((ofEntries inserted).insertAll more).Reflects (inserted ++ more) := by
  refine ⟨reflects_ofEntries, fun _ _ => ofJson_eq_ok_iff, fun inserted more => ?_⟩
  rw [insertAll_ofEntries]
  exact reflects_ofEntries _

/-- A stem of the largest byte, under which a contract of a negative number keeps two keys. -/
example : (ofEntries [(⟨0, [255]⟩, [1]), (⟨-1, [255, 0]⟩, [2]), (⟨-1, [255]⟩, [3]), (⟨-1, [254]⟩, [4]),
      (⟨-1, [255]⟩, [5])]).find (-1) [255]
    = [(⟨-1, [255]⟩, [5]), (⟨-1, [255, 0]⟩, [2])] := by
  decide

end Snapshot

end BoundedVm
