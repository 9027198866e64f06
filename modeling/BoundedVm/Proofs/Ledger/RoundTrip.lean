import BoundedVm.Ledger.Extensible
import BoundedVm.Ledger.Header
import BoundedVm.Proofs.Ledger.Canonical
import BoundedVm.Proofs.Wire.RoundTrip

/-! # Objects that are read back from what they are written as

Any object can be written, also one that no reader takes: the bounds of its fields are looked at by the
reader alone. Its form is told apart from the form of every other object, though, so that an object out
of bounds is refused and not read as another one.

* `Verifiable.Lawful`: a kind of objects whose unsigned form leaves out the witnesses and nothing else,
  and is read back under a condition on what it holds.
* `Verifiable.Lawful.accepts_read`: objects of such a kind are read back with their witnesses.
* `Verifiable.decode_encode_exact`: which payloads and which headers are read back. -/

namespace BoundedVm

/-! ## Witness sections -/

namespace Witness

/-- Whether both scripts of a witness are within the bounds under which they are read. -/
def Fits (w : Witness) : Prop :=
  w.invocation.length ≤ 1024 ∧ w.verification.length ≤ 1024

/-- Whether there are as many witnesses as are asked for, each of them within its bounds. -/
def SectionFits (count : Nat) (ws : List Witness) : Prop :=
  ws.length = count ∧ ∀ w ∈ ws, w.Fits

theorem accepts_read : read.Accepts Fits encode := by
  have hscript : (Reader.varBytes maxScript).Accepts (fun x => x.length ≤ 1024) Wire.varBytes :=
    Reader.accepts_varBytes (by decide)
  constructor
  intro input w rest
  simp only [read, Reader.bind_eq_ok_iff, Reader.pure_eq_ok_iff, hscript.eq_ok_iff]
  constructor
  · rintro ⟨invocation, mid, ⟨hinvocation, rfl⟩, verification, mid', ⟨hverification, rfl⟩, rfl, rfl⟩
    exact ⟨⟨hinvocation, hverification⟩, by rw [encode, List.append_assoc]⟩
  · rintro ⟨⟨hinvocation, hverification⟩, rfl⟩
    rw [encode, List.append_assoc]
    exact ⟨_, _, ⟨hinvocation, rfl⟩, _, _, ⟨hverification, rfl⟩, rfl, rfl⟩

theorem delimited_encode : Wire.Delimited encode := by
  constructor
  intro w w' rest rest' heq
  rw [encode, encode, List.append_assoc, List.append_assoc] at heq
  obtain ⟨hinvocation, htail⟩ := Wire.delimited_varBytes.append_inj heq
  obtain ⟨hverification, hrest⟩ := Wire.delimited_varBytes.append_inj htail
  cases w
  cases w'
  exact ⟨congrArg₂ _ hinvocation hverification, hrest⟩

/-- A section of any number of witnesses that a count stands for is read back if it holds as many. -/
theorem accepts_readSection {count : Nat} (hcount : count < 2 ^ 64) :
    (readSection count).Accepts (SectionFits count) encodeSection := by
  have harray := accepts_read.array hcount
  refine .of_recovers (recovers_readSection count) (fun {input ws rest} hws => ?_)
    fun {ws rest} hws => ?_
  · obtain ⟨ws', mid, hws', hws⟩ := Reader.bind_eq_ok_iff.1 hws
    split at hws
    · rename_i hlen
      obtain ⟨rfl, rfl⟩ := Reader.pure_eq_ok_iff.1 hws
      exact ⟨hlen, (harray.eq_ok_iff.mp hws').1.2⟩
    · exact absurd hws Reader.throw_ne_ok
  · have hread := harray.read_append ⟨hws.1.le, hws.2⟩ rest
    refine Reader.bind_eq_ok_iff.2 ⟨ws, rest, hread, ?_⟩
    rw [if_pos hws.1]
    rfl

end Witness

/-! ## Signed objects -/

namespace Verifiable

variable {α : Type} [Verifiable α] {Fits : α → Prop}

/-- A kind of objects whose witnesses are kept beside what the unsigned form holds. The unsigned form
tells apart what the objects hold besides their witnesses, and it is read back under a condition. -/
structure Lawful (Fits : α → Prop) : Prop where
  witnesses_withWitnesses (ws : List Witness) (x : α) : witnesses (withWitnesses ws x) = ws
  withWitnesses_witnesses (x : α) : withWitnesses (witnesses x) x = x
  withWitnesses_withWitnesses (ws ws' : List Witness) (x : α) :
    withWitnesses ws (withWitnesses ws' x) = withWitnesses ws x
  fits_withWitnesses (ws : List Witness) (x : α) : Fits (withWitnesses ws x) ↔ Fits x
  witnessCount_withWitnesses (ws : List Witness) (x : α) :
    witnessCount (withWitnesses ws x) = witnessCount x
  /-- The number of witnesses is one that can be written. -/
  witnessCount_lt (x : α) : Fits x → witnessCount x < 2 ^ 64
  encodeUnsigned_withWitnesses (ws : List Witness) (x : α) :
    encodeUnsigned (withWitnesses ws x) = encodeUnsigned x
  encodeUnsigned_append_inj {x y : α} {rest rest' : List UInt8} :
    encodeUnsigned x ++ rest = encodeUnsigned y ++ rest' →
      withWitnesses [] x = withWitnesses [] y ∧ rest = rest'
  accepts_readUnsigned :
    (readUnsigned : Reader α).Accepts (fun x => Fits x ∧ witnesses x = []) encodeUnsigned

/-- Objects are told apart by their forms, whether they are ever read back or not. -/
theorem Lawful.delimited_encode (h : Lawful Fits) : Wire.Delimited (encode (α := α)) := by
  constructor
  intro x y rest rest' heq
  rw [encode, encode, List.append_assoc, List.append_assoc] at heq
  obtain ⟨hunsigned, htail⟩ := h.encodeUnsigned_append_inj heq
  obtain ⟨hsection, hrest⟩ := Witness.delimited_encode.array.append_inj htail
  refine ⟨?_, hrest⟩
  -- each object is what its unsigned form holds together with its witnesses
  calc x = withWitnesses (witnesses x) (withWitnesses [] x) := by
        rw [h.withWitnesses_withWitnesses, h.withWitnesses_witnesses]
    _ = withWitnesses (witnesses y) (withWitnesses [] y) := by rw [hunsigned, hsection]
    _ = y := by rw [h.withWitnesses_withWitnesses, h.withWitnesses_witnesses]

/-- The unsigned form of an object that meets the condition is read back without the witnesses. -/
theorem Lawful.readUnsigned_encodeUnsigned (h : Lawful Fits) {x : α} (hx : Fits x)
    (rest : List UInt8) :
    readUnsigned (encodeUnsigned x ++ rest) = .ok (withWitnesses [] x) rest := by
  have hread := h.accepts_readUnsigned.read_append (x := withWitnesses [] x)
    ⟨(h.fits_withWitnesses [] x).mpr hx, h.witnesses_withWitnesses [] x⟩ rest
  rwa [h.encodeUnsigned_withWitnesses] at hread

/-- An object is read back with its witnesses if it meets the condition and the witnesses are as many
as it needs. -/
theorem Lawful.accepts_read (h : Lawful Fits) : (read : Reader α).Accepts
    (fun x => Fits x ∧ Witness.SectionFits (witnessCount x) (witnesses x)) encode := by
  constructor
  intro input x rest
  have hsection : ∀ {y : α}, Fits y →
      (Witness.readSection (witnessCount y)).Accepts (Witness.SectionFits (witnessCount y))
        Witness.encodeSection :=
    fun hy => Witness.accepts_readSection (h.witnessCount_lt _ hy)
  constructor
  · intro hx
    obtain ⟨y, mid, hy, hx⟩ := Reader.bind_eq_ok_iff.1 hx
    obtain ⟨ws, mid', hws, hx⟩ := Reader.bind_eq_ok_iff.1 hx
    obtain ⟨rfl, rfl⟩ := Reader.pure_eq_ok_iff.1 hx
    obtain ⟨⟨hfits, -⟩, rfl⟩ := h.accepts_readUnsigned.eq_ok_iff.mp hy
    obtain ⟨hsigned, rfl⟩ := (hsection hfits).eq_ok_iff.mp hws
    rw [h.fits_withWitnesses, h.witnessCount_withWitnesses, h.witnesses_withWitnesses, encode,
      h.encodeUnsigned_withWitnesses, h.witnesses_withWitnesses, List.append_assoc]
    exact ⟨⟨hfits, hsigned⟩, rfl⟩
  · rintro ⟨⟨hfits, hsigned⟩, rfl⟩
    rw [encode, List.append_assoc]
    refine Reader.bind_eq_ok_iff.2 ⟨_, _, h.readUnsigned_encodeUnsigned hfits _, ?_⟩
    refine Reader.bind_eq_ok_iff.2 ⟨witnesses x, rest, ?_, Reader.pure_eq_ok_iff.2 ⟨?_, rfl⟩⟩
    · rw [h.witnessCount_withWitnesses]
      exact (hsection hfits).read_append hsigned rest
    · rw [h.withWitnesses_withWitnesses, h.withWitnesses_witnesses]

/-- What is read from the form of an object is the object itself. -/
theorem Lawful.ofBytes_encode_eq_ok_iff (h : Lawful Fits) {x y : α} :
    ofBytes (encode x) = .ok y
      ↔ (Fits x ∧ Witness.SectionFits (witnessCount x) (witnesses x)) ∧ y = x := by
  rw [ofBytes, h.accepts_read.decode_eq_ok_iff]
  constructor
  · rintro ⟨hy, heq⟩
    obtain rfl := h.delimited_encode.injective heq
    exact ⟨hy, rfl⟩
  · rintro ⟨hx, rfl⟩
    exact ⟨hx, rfl⟩

/-- An object is read back as itself or refused. -/
theorem Lawful.ofBytes_encode_cases (h : Lawful Fits) (x : α) :
    (Fits x ∧ Witness.SectionFits (witnessCount x) (witnesses x)) ∧ ofBytes (encode x) = .ok x ∨
      ¬ (Fits x ∧ Witness.SectionFits (witnessCount x) (witnesses x)) ∧
        ∃ e, ofBytes (α := α) (encode x) = .error e := by
  cases hread : ofBytes (α := α) (encode x) with
  | ok y =>
    obtain ⟨hx, rfl⟩ := h.ofBytes_encode_eq_ok_iff.1 hread
    exact .inl ⟨hx, rfl⟩
  | error e =>
    refine .inr ⟨fun hx => ?_, e, rfl⟩
    rw [h.ofBytes_encode_eq_ok_iff.2 ⟨hx, rfl⟩] at hread
    cases hread

end Verifiable

/-! ## Payloads and headers -/

namespace ExtensiblePayload

/-- Whether the unsigned form of a payload is read back. -/
structure Fits (p : ExtensiblePayload) : Prop where
  category_le : p.category.utf8ByteSize ≤ 32
  window : p.validFrom < p.validUntil
  data_le : p.data.length ≤ 0x1000000

theorem encodeUnsigned_append_inj {p q : ExtensiblePayload} {rest rest' : List UInt8}
    (heq : p.encodeUnsigned ++ rest = q.encodeUnsigned ++ rest') :
    { p with witnesses := [] } = { q with witnesses := [] } ∧ rest = rest' := by
  simp only [encodeUnsigned, List.append_assoc] at heq
  obtain ⟨hcategory, heq⟩ := Wire.delimited_varString.append_inj heq
  obtain ⟨hfrom, heq⟩ := Reader.accepts_u32.delimited.append_inj heq
  obtain ⟨huntil, heq⟩ := Reader.accepts_u32.delimited.append_inj heq
  obtain ⟨hsender, heq⟩ := (Reader.accepts_digest 20).delimited.append_inj heq
  obtain ⟨hdata, hrest⟩ := Wire.delimited_varBytes.append_inj heq
  rw [hcategory, hfrom, huntil, hsender, hdata]
  exact ⟨rfl, hrest⟩

theorem accepts_readUnsigned :
    readUnsigned.Accepts (fun p => p.Fits ∧ p.witnesses = []) encodeUnsigned := by
  have hcategory : (Reader.varString maxCategory).Accepts (fun s => s.utf8ByteSize ≤ 32)
      Wire.varString := Reader.accepts_varString (by decide)
  have hdata : (Reader.varBytes maxData).Accepts (fun x => x.length ≤ 0x1000000) Wire.varBytes :=
    Reader.accepts_varBytes (by decide)
  refine .of_recovers recovers_readUnsigned (fun {input p rest} hp => ?_) fun {p rest} hp => ?_
  · obtain ⟨category, s₁, h₁, hp⟩ := Reader.bind_eq_ok_iff.1 hp
    obtain ⟨validFrom, s₂, -, hp⟩ := Reader.bind_eq_ok_iff.1 hp
    obtain ⟨validUntil, s₃, -, hp⟩ := Reader.bind_eq_ok_iff.1 hp
    split at hp
    · obtain ⟨_, _, hthrow, -⟩ := Reader.bind_eq_ok_iff.1 hp
      exact absurd hthrow Reader.throw_ne_ok
    · rename_i hwindow
      obtain ⟨sender, s₄, -, hp⟩ := Reader.bind_eq_ok_iff.1 hp
      obtain ⟨data, s₅, h₅, hp⟩ := Reader.bind_eq_ok_iff.1 hp
      obtain ⟨rfl, rfl⟩ := Reader.pure_eq_ok_iff.1 hp
      exact ⟨⟨(hcategory.eq_ok_iff.mp h₁).1, UInt32.not_le.mp hwindow,
        (hdata.eq_ok_iff.mp h₅).1⟩, rfl⟩
  · obtain ⟨⟨hcategoryLe, hwindow, hdataLe⟩, hnone⟩ := hp
    obtain ⟨category, validFrom, validUntil, sender, data, witnesses⟩ := p
    obtain rfl : witnesses = [] := hnone
    simp only [encodeUnsigned, List.append_assoc]
    refine Reader.bind_eq_ok_iff.2 ⟨_, _, hcategory.read_append hcategoryLe _, ?_⟩
    refine Reader.bind_eq_ok_iff.2 ⟨_, _, Reader.accepts_u32.read_append trivial _, ?_⟩
    refine Reader.bind_eq_ok_iff.2 ⟨_, _, Reader.accepts_u32.read_append trivial _, ?_⟩
    rw [if_neg (UInt32.not_le.mpr hwindow)]
    refine Reader.bind_eq_ok_iff.2 ⟨_, _, (Reader.accepts_digest 20).read_append trivial _, ?_⟩
    exact Reader.bind_eq_ok_iff.2 ⟨_, _, hdata.read_append hdataLe rest, rfl⟩

theorem lawful : Verifiable.Lawful Fits where
  witnesses_withWitnesses _ _ := rfl
  withWitnesses_witnesses _ := rfl
  withWitnesses_withWitnesses _ _ _ := rfl
  fits_withWitnesses _ _ := ⟨fun ⟨h₁, h₂, h₃⟩ => ⟨h₁, h₂, h₃⟩, fun ⟨h₁, h₂, h₃⟩ => ⟨h₁, h₂, h₃⟩⟩
  witnessCount_withWitnesses _ _ := rfl
  witnessCount_lt _ _ := (by decide : 1 < 2 ^ 64)
  encodeUnsigned_withWitnesses _ _ := rfl
  encodeUnsigned_append_inj := encodeUnsigned_append_inj
  accepts_readUnsigned := accepts_readUnsigned

end ExtensiblePayload

namespace Header

/-- Whether the unsigned form of a header is read back. -/
def Fits (h : Header) : Prop :=
  h.version = 0

theorem encodeUnsigned_append_inj {h g : Header} {rest rest' : List UInt8}
    (heq : h.encodeUnsigned ++ rest = g.encodeUnsigned ++ rest') :
    { h with witnesses := [] } = { g with witnesses := [] } ∧ rest = rest' := by
  simp only [encodeUnsigned, List.append_assoc] at heq
  obtain ⟨hversion, heq⟩ := Reader.accepts_u32.delimited.append_inj heq
  obtain ⟨hprevious, heq⟩ := (Reader.accepts_digest 32).delimited.append_inj heq
  obtain ⟨hmerkle, heq⟩ := (Reader.accepts_digest 32).delimited.append_inj heq
  obtain ⟨htimestamp, heq⟩ := Reader.accepts_u64.delimited.append_inj heq
  obtain ⟨hnonce, heq⟩ := Reader.accepts_u64.delimited.append_inj heq
  obtain ⟨hindex, heq⟩ := Reader.accepts_u32.delimited.append_inj heq
  obtain ⟨hprimary, heq⟩ := Reader.accepts_u8.delimited.append_inj heq
  obtain ⟨hnext, hrest⟩ := (Reader.accepts_digest 20).delimited.append_inj heq
  rw [hversion, hprevious, hmerkle, htimestamp, hnonce, hindex, hprimary, hnext]
  exact ⟨rfl, hrest⟩

theorem accepts_readUnsigned :
    readUnsigned.Accepts (fun h => h.Fits ∧ h.witnesses = []) encodeUnsigned := by
  refine .of_recovers recovers_readUnsigned (fun {input h rest} hh => ?_) fun {h rest} hh => ?_
  · obtain ⟨version, s₁, -, hh⟩ := Reader.bind_eq_ok_iff.1 hh
    split at hh
    · obtain ⟨_, _, hthrow, -⟩ := Reader.bind_eq_ok_iff.1 hh
      exact absurd hthrow Reader.throw_ne_ok
    · rename_i hversion
      obtain ⟨previous, s₂, -, hh⟩ := Reader.bind_eq_ok_iff.1 hh
      obtain ⟨merkleRoot, s₃, -, hh⟩ := Reader.bind_eq_ok_iff.1 hh
      obtain ⟨timestamp, s₄, -, hh⟩ := Reader.bind_eq_ok_iff.1 hh
      obtain ⟨nonce, s₅, -, hh⟩ := Reader.bind_eq_ok_iff.1 hh
      obtain ⟨index, s₆, -, hh⟩ := Reader.bind_eq_ok_iff.1 hh
      obtain ⟨primaryIndex, s₇, -, hh⟩ := Reader.bind_eq_ok_iff.1 hh
      obtain ⟨nextConsensus, s₈, -, hh⟩ := Reader.bind_eq_ok_iff.1 hh
      obtain ⟨rfl, rfl⟩ := Reader.pure_eq_ok_iff.1 hh
      exact ⟨UInt32.le_zero_iff.mp (UInt32.not_lt.mp hversion), rfl⟩
  · obtain ⟨hversion, hnone⟩ := hh
    obtain ⟨version, previous, merkleRoot, timestamp, nonce, index, primaryIndex, nextConsensus,
      witnesses⟩ := h
    obtain rfl : version = 0 := hversion
    obtain rfl : witnesses = [] := hnone
    simp only [encodeUnsigned, List.append_assoc]
    refine Reader.bind_eq_ok_iff.2 ⟨_, _, Reader.accepts_u32.read_append trivial _, ?_⟩
    rw [if_neg (UInt32.lt_irrefl 0)]
    refine Reader.bind_eq_ok_iff.2 ⟨_, _, (Reader.accepts_digest 32).read_append trivial _, ?_⟩
    refine Reader.bind_eq_ok_iff.2 ⟨_, _, (Reader.accepts_digest 32).read_append trivial _, ?_⟩
    refine Reader.bind_eq_ok_iff.2 ⟨_, _, Reader.accepts_u64.read_append trivial _, ?_⟩
    refine Reader.bind_eq_ok_iff.2 ⟨_, _, Reader.accepts_u64.read_append trivial _, ?_⟩
    refine Reader.bind_eq_ok_iff.2 ⟨_, _, Reader.accepts_u32.read_append trivial _, ?_⟩
    refine Reader.bind_eq_ok_iff.2 ⟨_, _, Reader.accepts_u8.read_append trivial _, ?_⟩
    exact Reader.bind_eq_ok_iff.2
      ⟨_, _, (Reader.accepts_digest 20).read_append trivial rest, rfl⟩

theorem lawful : Verifiable.Lawful Fits where
  witnesses_withWitnesses _ _ := rfl
  withWitnesses_witnesses _ := rfl
  withWitnesses_withWitnesses _ _ _ := rfl
  fits_withWitnesses _ _ := Iff.rfl
  witnessCount_withWitnesses _ _ := rfl
  witnessCount_lt _ _ := (by decide : 1 < 2 ^ 64)
  encodeUnsigned_withWitnesses _ _ := rfl
  encodeUnsigned_append_inj := encodeUnsigned_append_inj
  accepts_readUnsigned := accepts_readUnsigned

end Header

/-! ## What is read back -/

/-- Whether a payload is read back: it is within the bounds of its fields, and its one witness is within
those of its scripts. -/
def ExtensiblePayload.IsValid (p : ExtensiblePayload) : Prop :=
  p.Fits ∧ Witness.SectionFits 1 p.witnesses

/-- Whether a header is read back: it is of the known version, and its one witness is within the bounds
of its scripts. -/
def Header.IsValid (h : Header) : Prop :=
  h.Fits ∧ Witness.SectionFits 1 h.witnesses

namespace Verifiable

/-- **Exactly the valid objects are read back.** Any payload and any header whatever is either valid,
and then it is read back from what it is written as, or it is not valid, and then what it is written as
is refused and not read as some other object. -/
theorem decode_encode_exact :
    (∀ p : ExtensiblePayload,
      p.IsValid ∧ ofBytes (encode p) = .ok p ∨
        ¬ p.IsValid ∧ ∃ e, ofBytes (α := ExtensiblePayload) (encode p) = .error e) ∧
    ∀ h : Header,
      h.IsValid ∧ ofBytes (encode h) = .ok h ∨
        ¬ h.IsValid ∧ ∃ e, ofBytes (α := Header) (encode h) = .error e := by
  exact ⟨ExtensiblePayload.lawful.ofBytes_encode_cases, Header.lawful.ofBytes_encode_cases⟩

/-- A payload that nobody has signed is written, and refused when it is read. -/
example : ofBytes (α := ExtensiblePayload) (encode { validUntil := 1 : ExtensiblePayload })
    = .error (.witnessCountMismatch 1 0) := by
  cbv

end Verifiable

end BoundedVm
