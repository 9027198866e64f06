import BoundedVm.Proofs.Ledger.RoundTrip
import BoundedVm.Proofs.Wire.Faults

/-! # Why bytes are not an object

Bytes that are not an object are refused for a fault of the input, with one exception: a witness section
that is well formed but too short is refused with the same fault as an object whose witnesses do not
match its accounts. A section that is too long is not such an exception, for the reader stops at the
number of witnesses it begins with.

* `Verifiable.Underwitnessed`: bytes that begin with an object short of witnesses.
* `Verifiable.Lawful.ofBytes_eq_error_cases`: what any other refusal means. -/

namespace BoundedVm

/-! ## Witness sections -/

namespace Witness

theorem blamesInput_read : read.BlamesInput :=
  (Reader.blamesInput_varBytes _).bind fun _ =>
    (Reader.blamesInput_varBytes _).bind fun _ => Reader.blamesInput_pure _

/-- A section that is refused for nothing in its bytes holds too few witnesses. -/
theorem readSection_eq_error_cases {count : Nat} (hcount : count < 2 ^ 64)
    {input rest : List UInt8} {e : PayloadFault} (he : readSection count input = .error e rest) :
    e.isMalformed = true ∨
      ∃ ws, ws.length < count ∧ (∀ w ∈ ws, w.Fits) ∧ input = encodeSection ws ++ rest ∧
        e = .witnessCountMismatch count ws.length := by
  rcases Reader.bind_eq_error_iff.1 he with harray | ⟨ws, mid, hws, hcheck⟩
  · exact .inl (blamesInput_read.array count _ _ _ harray)
  · obtain ⟨⟨hle, hfits⟩, rfl⟩ := (accepts_read.array hcount).eq_ok_iff.mp hws
    split at hcheck
    · exact absurd hcheck Reader.pure_ne_error
    · rename_i hlen
      obtain ⟨rfl, rfl⟩ := Reader.throw_eq_error_iff.1 hcheck
      exact .inr ⟨ws, lt_of_le_of_ne hle hlen, hfits, rfl, rfl⟩

/-- A section with too few witnesses is refused with both numbers. -/
theorem readSection_encodeSection_of_lt {count : Nat} {ws : List Witness}
    (hsized : ws.length < 2 ^ 64) (hlt : ws.length < count) (hfits : ∀ w ∈ ws, w.Fits)
    (rest : List UInt8) :
    readSection count (encodeSection ws ++ rest)
      = .error (.witnessCountMismatch count ws.length) rest := by
  have hread := (accepts_read.array_within count).read_append ⟨⟨hlt.le, hsized⟩, hfits⟩ rest
  refine Reader.bind_eq_error_iff.2 (.inr ⟨ws, rest, hread, ?_⟩)
  rw [if_neg hlt.ne]
  exact Reader.throw_eq_error_iff.2 ⟨rfl, rfl⟩

end Witness

/-! ## Objects -/

namespace Verifiable

variable {α : Type} [Verifiable α] {Fits : α → Prop}

/-- Whether some bytes begin with the form of an object that is read back but for its witnesses, of
which it has too few. -/
structure Underwitnessed (Fits : α → Prop) (x : α) (input : List UInt8) : Prop where
  fits : Fits x
  length_lt : (witnesses x).length < witnessCount x
  fits_of_mem : ∀ w ∈ witnesses x, w.Fits
  begins : encode x <+: input

/-- Bytes that begin with an object short of witnesses are refused for the number of witnesses, whatever
comes after it. -/
theorem Lawful.ofBytes_of_underwitnessed (h : Lawful Fits) {x : α} {input : List UInt8}
    (hx : Underwitnessed Fits x input) :
    ofBytes (α := α) input
      = .error (.witnessCountMismatch (witnessCount x) (witnesses x).length) := by
  obtain ⟨rest, rfl⟩ := hx.begins
  refine Reader.decode_eq_error_iff.2 (.inl ⟨rest, ?_⟩)
  rw [encode, List.append_assoc]
  refine Reader.bind_eq_error_iff.2
    (.inr ⟨_, _, h.readUnsigned_encodeUnsigned hx.fits _, Reader.bind_eq_error_iff.2 (.inl ?_)⟩)
  rw [h.witnessCount_withWitnesses]
  exact Witness.readSection_encodeSection_of_lt
    (hx.length_lt.trans (h.witnessCount_lt x hx.fits)) hx.length_lt hx.fits_of_mem rest

/-- **Why bytes are not an object.** If bytes are refused, the fault is one of the input itself, or the
bytes begin with an object short of witnesses. -/
theorem Lawful.ofBytes_eq_error_cases (h : Lawful Fits)
    (hunsigned : (readUnsigned : Reader α).BlamesInput) {input : List UInt8} {e : PayloadFault}
    (he : ofBytes (α := α) input = .error e) :
    e.isMalformed = true ∨ ∃ x : α, Underwitnessed Fits x input := by
  rcases Reader.decode_eq_error_iff.1 he with ⟨rest, hread⟩ | ⟨_, _, -, -, rfl⟩
  · rcases Reader.bind_eq_error_iff.1 hread with hx | ⟨x, mid, hx, hsigned⟩
    · exact .inl (hunsigned _ _ _ hx)
    · obtain ⟨⟨hfits, -⟩, rfl⟩ := h.accepts_readUnsigned.eq_ok_iff.mp hx
      rcases Reader.bind_eq_error_iff.1 hsigned with hsection | ⟨ws, mid', -, hpure⟩
      · rcases Witness.readSection_eq_error_cases (h.witnessCount_lt x hfits) hsection with
          hinput | ⟨ws, hlt, hws, rfl, -⟩
        · exact .inl hinput
        · -- the object is what was read before the section, with the witnesses of the section
          refine .inr ⟨withWitnesses ws x, (h.fits_withWitnesses ws x).mpr hfits, ?_, ?_, rest, ?_⟩
          · rwa [h.witnesses_withWitnesses, h.witnessCount_withWitnesses]
          · rwa [h.witnesses_withWitnesses]
          · rw [encode, h.encodeUnsigned_withWitnesses, h.witnesses_withWitnesses,
              List.append_assoc]
      · exact absurd hpure Reader.pure_ne_error
  · exact .inl rfl

end Verifiable

namespace ExtensiblePayload

theorem blamesInput_readUnsigned : readUnsigned.BlamesInput := by
  refine (Reader.blamesInput_varString _).bind fun _ => Reader.blamesInput_u32.bind fun _ =>
    Reader.blamesInput_u32.bind fun _ => ?_
  split
  · exact (Reader.blamesInput_throw rfl).bind fun _ => (Reader.blamesInput_digest _).bind fun _ =>
      (Reader.blamesInput_varBytes _).bind fun _ => Reader.blamesInput_pure _
  · exact (Reader.blamesInput_digest _).bind fun _ =>
      (Reader.blamesInput_varBytes _).bind fun _ => Reader.blamesInput_pure _

end ExtensiblePayload

end BoundedVm
