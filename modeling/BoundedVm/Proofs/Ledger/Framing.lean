import BoundedVm.Proofs.Ledger.RoundTrip
import BoundedVm.Proofs.Wire.Framing

/-! # Frames of objects

The bytes of an object end where the object does: cut anywhere, they are refused for their end, and
continued by anything, for what is too many. A cut may fall into a length, into a character of a text or
between two fields that are checked against each other; the object is then refused before the check.

* `Verifiable.incremental_read`: an object is read no further than it needs to be.
* `Verifiable.isFrame_encode`: the bytes of payloads and headers. -/

namespace BoundedVm

theorem Witness.incremental_read : read.Incremental :=
  (Reader.incremental_varBytes _).bind fun _ =>
    (Reader.incremental_varBytes _).bind fun _ => Reader.incremental_pure _

theorem Witness.incremental_readSection (count : Nat) : (readSection count).Incremental := by
  refine (incremental_read.array count).bind fun ws => ?_
  split
  · exact Reader.incremental_pure _
  · exact Reader.incremental_throw _

theorem ExtensiblePayload.incremental_readUnsigned : readUnsigned.Incremental :=
  (Reader.incremental_varString _).bind fun _ => Reader.incremental_u32.bind fun _ =>
    Reader.incremental_u32.bind fun _ => Reader.Incremental.guarded <|
    (Reader.incremental_digest _).bind fun _ => (Reader.incremental_varBytes _).bind fun _ =>
    Reader.incremental_pure _

theorem Header.incremental_readUnsigned : readUnsigned.Incremental :=
  Reader.incremental_u32.bind fun _ => Reader.Incremental.guarded <|
    (Reader.incremental_digest _).bind fun _ => (Reader.incremental_digest _).bind fun _ =>
    Reader.incremental_u64.bind fun _ => Reader.incremental_u64.bind fun _ =>
    Reader.incremental_u32.bind fun _ => Reader.incremental_u8.bind fun _ =>
    (Reader.incremental_digest _).bind fun _ => Reader.incremental_pure _

namespace Verifiable

/-- An object is read incrementally if its unsigned form is. -/
theorem incremental_read {α : Type} [Verifiable α]
    (hunsigned : (readUnsigned : Reader α).Incremental) : (read : Reader α).Incremental :=
  hunsigned.bind fun _ => (Witness.incremental_readSection _).bind fun _ =>
    Reader.incremental_pure _

/-- **Objects are framed strictly.** If a payload or a header is read at all from what it is written as,
then any proper beginning of its bytes is refused because the bytes end, and its bytes with anything
after them are refused for the number of the bytes after them. -/
theorem isFrame_encode :
    (∀ p q : ExtensiblePayload, ofBytes (encode p) = .ok q →
      Reader.IsFrame (ofBytes (α := ExtensiblePayload)) (encode p)) ∧
    ∀ h g : Header, ofBytes (encode h) = .ok g →
      Reader.IsFrame (ofBytes (α := Header)) (encode h) := by
  constructor
  · intro p q hq
    exact ExtensiblePayload.lawful.accepts_read.isFrame
      (incremental_read ExtensiblePayload.incremental_readUnsigned) hq
  · intro h g hg
    exact Header.lawful.accepts_read.isFrame
      (incremental_read Header.incremental_readUnsigned) hg

/-- A payload whose category is a character of two bytes. -/
theorem isFrame_encode_twoByteCategory :
    ofBytes (encode { category := "é", validUntil := 1, witnesses := [{}] : ExtensiblePayload })
        = .ok { category := "é", validUntil := 1, witnesses := [{}] : ExtensiblePayload } ∧
      Reader.IsFrame (ofBytes (α := ExtensiblePayload))
        (encode { category := "é", validUntil := 1, witnesses := [{}] : ExtensiblePayload }) := by
  have hread : ofBytes
      (encode { category := "é", validUntil := 1, witnesses := [{}] : ExtensiblePayload })
        = .ok { category := "é", validUntil := 1, witnesses := [{}] : ExtensiblePayload } :=
    ExtensiblePayload.lawful.ofBytes_encode_eq_ok_iff.2
      ⟨⟨⟨by decide, by decide, by decide⟩, rfl, by simp [witnesses, Witness.Fits]⟩, rfl⟩
  exact ⟨hread, isFrame_encode.1 _ _ hread⟩

/-- Cut within the character, its bytes are not refused as a text. -/
example : ofBytes (α := ExtensiblePayload) [2, 0xC3] = .error (.unexpectedEnd 2 1) := by
  cbv

end Verifiable

end BoundedVm
