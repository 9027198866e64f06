import BoundedVm.Ledger.Extensible
import BoundedVm.Ledger.Header
import BoundedVm.Proofs.Wire.Canonical

/-! # Objects with one byte form

Every object that is read has been read from the bytes that it is written as. For the fields this is
the work of `Proofs.Wire.Canonical`; here the readers of objects are taken apart into their fields. The
checks between the fields, of the window, the version and the number of witnesses, only refuse objects
and so do not matter.

* `Verifiable.recovers_read`: an object whose unsigned form is recovered is recovered with its
  witnesses.
* `Verifiable.decode_isCanonical`: the statement for each kind of object. -/

namespace BoundedVm

/-! ## Witnesses -/

namespace Witness

theorem recovers_read : read.Recovers encode := by
  intro input w rest hw
  obtain ⟨invocation, mid, hinvocation, hw⟩ := Reader.bind_eq_ok_iff.1 hw
  obtain ⟨verification, mid', hverification, hw⟩ := Reader.bind_eq_ok_iff.1 hw
  obtain ⟨rfl, rfl⟩ := Reader.pure_eq_ok_iff.1 hw
  rw [Reader.recovers_varBytes _ hinvocation, Reader.recovers_varBytes _ hverification, encode,
    List.append_assoc]

/-- A witness section is recovered for whatever number of witnesses is asked for. -/
theorem recovers_readSection (count : Nat) : (readSection count).Recovers encodeSection := by
  intro input ws rest hws
  obtain ⟨ws', mid, hws', hws⟩ := Reader.bind_eq_ok_iff.1 hws
  split at hws
  · obtain ⟨rfl, rfl⟩ := Reader.pure_eq_ok_iff.1 hws
    exact Reader.recovers_array recovers_read count hws'
  · exact absurd hws Reader.throw_ne_ok

end Witness

/-! ## Signed objects -/

namespace Verifiable

/-- An object is recovered with its witnesses if its unsigned form is, which the witnesses do not
change. -/
theorem recovers_read {α : Type} [Verifiable α]
    (hunsigned : (readUnsigned : Reader α).Recovers encodeUnsigned)
    (hkept : ∀ ws (x : α), encodeUnsigned (withWitnesses ws x) = encodeUnsigned x)
    (hset : ∀ ws (x : α), witnesses (withWitnesses ws x) = ws) :
    (read : Reader α).Recovers encode := by
  intro input x rest hx
  obtain ⟨y, mid, hy, hx⟩ := Reader.bind_eq_ok_iff.1 hx
  obtain ⟨ws, mid', hws, hx⟩ := Reader.bind_eq_ok_iff.1 hx
  obtain ⟨rfl, rfl⟩ := Reader.pure_eq_ok_iff.1 hx
  rw [encode, hkept, hset, List.append_assoc, hunsigned hy, Witness.recovers_readSection _ hws]

end Verifiable

theorem ExtensiblePayload.recovers_readUnsigned : readUnsigned.Recovers encodeUnsigned := by
  intro input p rest hp
  obtain ⟨category, s₁, hcategory, hp⟩ := Reader.bind_eq_ok_iff.1 hp
  obtain ⟨validFrom, s₂, hfrom, hp⟩ := Reader.bind_eq_ok_iff.1 hp
  obtain ⟨validUntil, s₃, huntil, hp⟩ := Reader.bind_eq_ok_iff.1 hp
  -- an empty window is refused
  split at hp
  · obtain ⟨_, _, hthrow, -⟩ := Reader.bind_eq_ok_iff.1 hp
    exact absurd hthrow Reader.throw_ne_ok
  · obtain ⟨sender, s₄, hsender, hp⟩ := Reader.bind_eq_ok_iff.1 hp
    obtain ⟨data, s₅, hdata, hp⟩ := Reader.bind_eq_ok_iff.1 hp
    obtain ⟨rfl, rfl⟩ := Reader.pure_eq_ok_iff.1 hp
    rw [Reader.recovers_varString _ hcategory, Reader.recovers_u32 hfrom,
      Reader.recovers_u32 huntil, Reader.recovers_digest _ hsender,
      Reader.recovers_varBytes _ hdata]
    simp only [encodeUnsigned, List.append_assoc]

theorem Header.recovers_readUnsigned : readUnsigned.Recovers encodeUnsigned := by
  intro input h rest hh
  obtain ⟨version, s₁, hversion, hh⟩ := Reader.bind_eq_ok_iff.1 hh
  -- an unknown version is refused
  split at hh
  · obtain ⟨_, _, hthrow, -⟩ := Reader.bind_eq_ok_iff.1 hh
    exact absurd hthrow Reader.throw_ne_ok
  · obtain ⟨previous, s₂, hprevious, hh⟩ := Reader.bind_eq_ok_iff.1 hh
    obtain ⟨merkleRoot, s₃, hmerkle, hh⟩ := Reader.bind_eq_ok_iff.1 hh
    obtain ⟨timestamp, s₄, htimestamp, hh⟩ := Reader.bind_eq_ok_iff.1 hh
    obtain ⟨nonce, s₅, hnonce, hh⟩ := Reader.bind_eq_ok_iff.1 hh
    obtain ⟨index, s₆, hindex, hh⟩ := Reader.bind_eq_ok_iff.1 hh
    obtain ⟨primaryIndex, s₇, hprimary, hh⟩ := Reader.bind_eq_ok_iff.1 hh
    obtain ⟨nextConsensus, s₈, hnext, hh⟩ := Reader.bind_eq_ok_iff.1 hh
    obtain ⟨rfl, rfl⟩ := Reader.pure_eq_ok_iff.1 hh
    rw [Reader.recovers_u32 hversion, Reader.recovers_digest _ hprevious,
      Reader.recovers_digest _ hmerkle, Reader.recovers_u64 htimestamp,
      Reader.recovers_u64 hnonce, Reader.recovers_u32 hindex, Reader.recovers_u8 hprimary,
      Reader.recovers_digest _ hnext]
    simp only [encodeUnsigned, List.append_assoc]

/-! ## Canonical objects -/

namespace Verifiable

/-- **Objects have one byte form.** For extensible payloads, headers, witnesses, accounts and object
identities: whatever bytes an object is read from, it is written as the same bytes, so that no other
bytes are read as the same object. -/
theorem decode_isCanonical :
    Reader.IsCanonical encode (ofBytes (α := ExtensiblePayload)) ∧
      Reader.IsCanonical encode (ofBytes (α := Header)) ∧
      Reader.IsCanonical Witness.encode (Reader.decode Witness.read) ∧
      Reader.IsCanonical Digest.bytes (Reader.decode (Reader.digest 20)) ∧
      Reader.IsCanonical Digest.bytes (Reader.decode (Reader.digest 32)) := by
  have hextensible : (read : Reader ExtensiblePayload).Recovers encode :=
    recovers_read ExtensiblePayload.recovers_readUnsigned (fun _ _ => rfl) fun _ _ => rfl
  have hheader : (read : Reader Header).Recovers encode :=
    recovers_read Header.recovers_readUnsigned (fun _ _ => rfl) fun _ _ => rfl
  exact ⟨hextensible.canonical, hheader.canonical, Witness.recovers_read.canonical,
    Reader.Recovers.canonical (Reader.recovers_digest 20),
    Reader.Recovers.canonical (Reader.recovers_digest 32)⟩

/-- A script whose length is padded with a zero digit is no second form of a witness. -/
example : Reader.decode Witness.read [2, 12, 64, 1, 65] = .ok ⟨[12, 64], [65]⟩ ∧
    Reader.decode Witness.read [130, 0, 12, 64, 1, 65] = .error .nonCanonicalVarInt := by
  cbv

end Verifiable

end BoundedVm
