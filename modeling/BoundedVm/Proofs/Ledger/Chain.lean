import BoundedVm.Proofs.Ledger.Binding
import BoundedVm.Proofs.Ledger.RoundTrip
import Mathlib.Data.List.Nodup

/-! # Headers and the headers before them

A snapshot keeps each block under its identity, as the bytes of its header. The account that must agree
to a header is then the one that the header before it names: the identity leads to the bytes, the bytes
are read back as the header that was written, and nothing else that the snapshot keeps comes in between.

* `StoresHeaders`: insertions that keep some headers, among whatever else is not a block.
* `Header.accounts_of_stored`, `Header.accounts_of_not_stored`: the account of a header.
* `Header.verify_chained`: when a header is let through. -/

namespace BoundedVm

theorem Digest.isZero_iff {width : Nat} {d : Digest width} : d.isZero = true ↔ d = .zero := by
  constructor
  · intro h
    refine Digest.ext (List.eq_replicate_iff.mpr ⟨d.length_bytes, fun b hb => ?_⟩)
    exact eq_of_beq (List.all_eq_true.mp h b hb)
  · rintro rfl
    simp [isZero, zero]

/-- Insertions that keep some headers: the headers are valid, no two of them have one identity, and what
is kept for the ledger is each header under its identity, in any order. Other contracts keep what they
will. -/
structure StoresHeaders (headers : List Header) (entries : List (StorageKey × List UInt8)) : Prop where
  isValid : ∀ p ∈ headers, p.IsValid
  nodup : (headers.map Verifiable.id).Nodup
  mem_iff : ∀ e : StorageKey × List UInt8, e.1.id = blockRegistryId →
    (e ∈ entries ↔ ∃ p ∈ headers, e = (blockKey (Verifiable.id p), Verifiable.encode p))

section

variable {headers : List Header} {entries : List (StorageKey × List UInt8)}

/-- A header that is kept is found under its identity. -/
theorem StoresHeaders.get?_blockKey (h : StoresHeaders headers entries) {p : Header}
    (hp : p ∈ headers) :
    (Snapshot.ofEntries entries).get? (blockKey (Verifiable.id p)) = some (Verifiable.encode p) := by
  refine Snapshot.get?_ofEntries_eq_some ((h.mem_iff _ rfl).mpr ⟨p, hp, rfl⟩) fun v' hv' => ?_
  obtain ⟨q, hq, heq⟩ := (h.mem_iff _ rfl).mp hv'
  obtain ⟨hkey, rfl⟩ := Prod.mk.inj heq
  rw [List.inj_on_of_nodup_map h.nodup hp hq (blockKey_injective hkey)]

/-- No other identity leads anywhere. -/
theorem StoresHeaders.get?_blockKey_eq_none (h : StoresHeaders headers entries) {block : ObjectId}
    (hblock : ∀ p ∈ headers, block ≠ Verifiable.id p) :
    (Snapshot.ofEntries entries).get? (blockKey block) = none := by
  refine Snapshot.get?_ofEntries_eq_none fun v hv => ?_
  obtain ⟨p, hp, heq⟩ := (h.mem_iff _ rfl).mp hv
  exact hblock p hp (blockKey_injective (Prod.mk.inj heq).1)

namespace Header

variable {x : Header}

theorem isGenesis_iff : x.isGenesis = true ↔ x.previous = .zero :=
  Digest.isZero_iff

/-! ## The account of a header -/

/-- A header that follows a kept one has the account that this one names. -/
theorem accounts_of_stored (h : StoresHeaders headers entries) (hx : x.previous ≠ .zero) {p : Header}
    (hp : p ∈ headers) (hprevious : x.previous = Verifiable.id p) :
    accounts (.ofEntries entries) x = .ok [p.nextConsensus] := by
  have hread : Reader.decode read (Verifiable.encode p) = .ok p :=
    lawful.ofBytes_encode_eq_ok_iff.2 ⟨h.isValid p hp, rfl⟩
  rw [accounts, if_neg fun hg => hx (isGenesis_iff.1 hg), hprevious, h.get?_blockKey hp]
  simp only [hread]
  rfl

theorem accounts_of_not_stored (h : StoresHeaders headers entries) (hx : x.previous ≠ .zero)
    (hprevious : ∀ p ∈ headers, x.previous ≠ Verifiable.id p) :
    accounts (.ofEntries entries) x = .error (.unknownPreviousBlock x.previous) := by
  rw [accounts, if_neg fun hg => hx (isGenesis_iff.1 hg), h.get?_blockKey_eq_none hprevious]

/-! ## Verdicts on headers -/

/-- The first header of a chain is bound by its own witness alone. -/
theorem verify_genesis_iff (snapshot : Snapshot) (hx : x.previous = .zero) :
    Verifiable.verify snapshot x = .ok ()
      ↔ ∃ w, x.witnesses = [w] ∧ (w.verification ≠ [] ∨ snapshot.Deploys (.ofScript [])) := by
  cases hws : x.witnesses with
  | nil =>
    have haccounts : accounts snapshot x = .error (.invalidFormat .unsignedGenesis) := by
      rw [accounts, if_pos (isGenesis_iff.2 hx), hws]
    rw [Verifiable.verify_of_accounts_eq_error haccounts]
    exact iff_of_false (fun hok => by cases hok) fun ⟨w, hw, _⟩ => by cases hw
  | cons w ws =>
    have haccounts : accounts snapshot x = .ok [w.account] := by
      rw [accounts, if_pos (isGenesis_iff.2 hx), hws]
    rw [Verifiable.verify_eq_ok_iff_of_single haccounts]
    show (∃ w', x.witnesses = [w'] ∧ w'.IsBound snapshot w.account) ↔ _
    rw [hws]
    constructor
    · rintro ⟨w', hw, hbound⟩
      cases hw
      exact ⟨w, rfl, Witness.isBound_account_iff.1 hbound⟩
    · rintro ⟨w', hw, hbound⟩
      cases hw
      exact ⟨w, rfl, Witness.isBound_account_iff.2 hbound⟩

/-- **Headers are agreed to by the account that the header before them names.** Some valid headers of
different identities are kept by a snapshot, each under its identity, put there in any order and among
anything that belongs to other contracts. A header that is not the first of a chain and follows one of
them has the account that this one names, and it is let through if and only if it has one witness and
this is bound to that account; if it follows none of them, its previous block is reported as unknown.
The first header of a chain is let through if and only if it has one witness, and this has a
verification script or a contract is deployed at the account of the empty script. -/
theorem verify_chained (h : StoresHeaders headers entries) (x : Header) :
    (x.previous ≠ .zero →
      (∀ p ∈ headers, x.previous = Verifiable.id p →
        accounts (.ofEntries entries) x = .ok [p.nextConsensus] ∧
          (Verifiable.verify (.ofEntries entries) x = .ok ()
            ↔ ∃ w, x.witnesses = [w] ∧ w.IsBound (.ofEntries entries) p.nextConsensus)) ∧
      ((∀ p ∈ headers, x.previous ≠ Verifiable.id p) →
        accounts (.ofEntries entries) x = .error (.unknownPreviousBlock x.previous) ∧
          Verifiable.verify (.ofEntries entries) x = .error (.unknownPreviousBlock x.previous))) ∧
    (x.previous = .zero →
      (Verifiable.verify (.ofEntries entries) x = .ok ()
        ↔ ∃ w, x.witnesses = [w] ∧
          (w.verification ≠ [] ∨ (Snapshot.ofEntries entries).Deploys (.ofScript [])))) := by
  refine ⟨fun hx => ⟨fun p hp hprevious => ?_, fun hprevious => ?_⟩, verify_genesis_iff _⟩
  · have haccounts := accounts_of_stored h hx hp hprevious
    exact ⟨haccounts, Verifiable.verify_eq_ok_iff_of_single haccounts⟩
  · have haccounts := accounts_of_not_stored h hx hprevious
    exact ⟨haccounts, Verifiable.verify_of_accounts_eq_error haccounts⟩

end Header

end

namespace Header

/-- A header that leaves the next block to a contract. -/
def firstBlock : Header := { witnesses := [⟨[], [17]⟩] }

/-- A header that leaves the next block to another account. -/
def secondBlock : Header :=
  { index := 1, nextConsensus := ⟨List.replicate 20 1, rfl⟩, witnesses := [⟨[], [17]⟩] }

/-- The two headers, the later one put there first, and the contract between them. -/
def keptBlocks : List (StorageKey × List UInt8) :=
  [(blockKey (Verifiable.id secondBlock), Verifiable.encode secondBlock), (contractKey .zero, [0]),
    (blockKey (Verifiable.id firstBlock), Verifiable.encode firstBlock)]

/-- A header that follows the first of the two and is agreed to by the contract. -/
def child : Header :=
  { previous := Verifiable.id firstBlock, index := 1, witnesses := [⟨[7], []⟩] }

theorem verify_chained_child :
    StoresHeaders [firstBlock, secondBlock] keptBlocks ∧
      Verifiable.verify (.ofEntries keptBlocks) child = .ok () ∧
      Verifiable.verify (.ofEntries keptBlocks) Verifiable.orphan
        = .error (.unknownPreviousBlock Verifiable.orphan.previous) ∧
      Verifiable.verify (.ofEntries keptBlocks) firstBlock = .ok () := by
  -- the first bytes of the identities tell them apart
  have hfirst : (Verifiable.id firstBlock).bytes.head? = some 181 := by decide +kernel
  have hsecond : (Verifiable.id secondBlock).bytes.head? = some 25 := by decide +kernel
  have hne : Verifiable.id firstBlock ≠ Verifiable.id secondBlock := by
    intro heq
    rw [heq, hsecond] at hfirst
    cases hfirst
  have hstores : StoresHeaders [firstBlock, secondBlock] keptBlocks := by
    refine ⟨?_, ?_, fun e he => ?_⟩
    · simp [IsValid, Fits, Witness.SectionFits, Witness.Fits, firstBlock, secondBlock]
    · simpa using hne
    · have hcontract : e ≠ (contractKey .zero, [0]) := by
        rintro rfl
        exact absurd he (by decide : contractRegistryId ≠ blockRegistryId)
      simp [keptBlocks, hcontract, or_comm]
  have hdeploys : (Snapshot.ofEntries keptBlocks).Deploys .zero :=
    ⟨[0], Snapshot.get?_ofEntries_eq_some (by simp [keptBlocks])
      (by simp [keptBlocks, contractKey_ne_blockKey])⟩
  have hchild : child.previous ≠ .zero := by
    intro hzero
    cases hfirst.symm.trans (congrArg (fun d => d.bytes.head?) hzero)
  have horphan : ∀ p ∈ [firstBlock, secondBlock], Verifiable.orphan.previous ≠ Verifiable.id p := by
    intro p hp heq
    have hhead : (Verifiable.id p).bytes.head? = some 1 := by
      rw [← heq]
      rfl
    rcases List.mem_pair.mp hp with rfl | rfl
    · cases hfirst.symm.trans hhead
    · cases hsecond.symm.trans hhead
  refine ⟨hstores, ?_, ?_, ?_⟩
  · refine (((verify_chained hstores child).1 hchild).1 firstBlock (by simp) rfl).2.mpr ?_
    exact ⟨_, rfl, .inr ⟨rfl, hdeploys⟩⟩
  · exact (((verify_chained hstores Verifiable.orphan).1 (by decide)).2 horphan).2
  · exact ((verify_chained hstores firstBlock).2 rfl).mpr ⟨_, rfl, .inl (by decide)⟩

end Header

end BoundedVm
