import BoundedVm.Ledger.Shape
import BoundedVm.Proofs.Ledger.RoundTrip

/-! # Rows of fields

Fields of any shapes are written one after the other and read in the same order. No mark stands between
them: a field is told apart from what follows by its own form alone, and so is each element of an array,
however deep arrays lie in one another.

* `Shape.Fits`: the bounds that the shape of a field sets to its value.
* `Shape.accepts_read`: a value is read if and only if it is within the bounds of its shape.
* `readFields_encodeFields`: a row of fields is read back from its form, whatever follows. -/

namespace BoundedVm

namespace Shape

/-- Whether a value is within the bounds that its shape sets: a byte string of known length has this
length, what begins with a count is within the bound of the count and can be counted in 64 bits, and the
scripts of witnesses are within theirs. -/
def Fits : (s : Shape) → s.Value → Prop
  | u8 | bool | u16 | u32 | u64 | digest _ => fun _ => True
  | bytes length => fun (v : List UInt8) => v.length = length
  | varInt max => Reader.Within max
  | varBytes max => fun (v : List UInt8) => Reader.Within max v.length
  | varString max => fun (s : String) => Reader.Within max s.utf8ByteSize
  | witness => Witness.Fits
  | extensible => ExtensiblePayload.IsValid
  | header => Header.IsValid
  | witnesses count => fun ws => count < 2 ^ 64 ∧ Witness.SectionFits count ws
  | array max item => fun (xs : List item.Value) =>
    Reader.Within max xs.length ∧ ∀ x ∈ xs, item.Fits x

/-- A witness section is read under any count, also under one that no section can begin with. -/
theorem accepts_readSection (count : Nat) :
    (Witness.readSection count).Accepts
      (fun ws => count < 2 ^ 64 ∧ Witness.SectionFits count ws) Witness.encodeSection := by
  rcases Nat.lt_or_ge count (2 ^ 64) with hlt | hle
  · exact (Witness.accepts_readSection hlt).congr fun _ => (and_iff_right hlt).symm
  · refine .of_recovers (Witness.recovers_readSection count) (fun {input ws rest} hws => ?_)
      fun {ws rest} hws => absurd hws.1 (Nat.not_lt.mpr hle)
    obtain ⟨ws', mid, hws', hws⟩ := Reader.bind_eq_ok_iff.1 hws
    have hlt : ws'.length < 2 ^ 64 :=
      ((Witness.accepts_read.array_within count).eq_ok_iff.mp hws').1.1.2
    split at hws
    · omega
    · exact absurd hws Reader.throw_ne_ok

/-- **A value is read from its own form, if it is within the bounds of its shape.** By the shapes: an
array reads what its elements read. -/
theorem accepts_read (s : Shape) : s.read.Accepts s.Fits s.encode := by
  induction s with
  | u8 => exact Reader.accepts_u8
  | bool => exact Reader.accepts_bool
  | u16 => exact Reader.accepts_u16
  | u32 => exact Reader.accepts_u32
  | u64 => exact Reader.accepts_u64
  | bytes length => exact Reader.accepts_bytes length
  | varInt max => exact Reader.accepts_varInt_within max
  | varBytes max => exact Reader.accepts_varBytes_within max
  | varString max => exact Reader.accepts_varString_within max
  | digest width => exact Reader.accepts_digest width
  | witness => exact Witness.accepts_read
  | extensible => exact ExtensiblePayload.lawful.accepts_read
  | header => exact Header.lawful.accepts_read
  | witnesses count => exact accepts_readSection count
  | array max item ih => exact ih.array_within max

end Shape

/-- Reads fields of some shapes one after the other. -/
def readFields : List Shape → Reader (List Field)
  | [] => pure []
  | s :: shapes => do
    let v ← s.read
    let fields ← readFields shapes
    pure (⟨s, v⟩ :: fields)

@[simp] theorem encodeFields_nil : encodeFields [] = [] := rfl

@[simp] theorem encodeFields_cons (f : Field) (fields : List Field) :
    encodeFields (f :: fields) = f.1.encode f.2 ++ encodeFields fields :=
  List.flatMap_cons

/-- Fields are read one after the other if each of them is read. -/
theorem accepts_readFields (shapes : List Shape) :
    (readFields shapes).Accepts
      (fun fields => fields.map Sigma.fst = shapes ∧ ∀ f ∈ fields, f.1.Fits f.2)
      encodeFields := by
  induction shapes with
  | nil =>
    constructor
    intro input fields rest
    rw [readFields, Reader.pure_eq_ok_iff]
    constructor
    · rintro ⟨rfl, rfl⟩
      simp
    · rintro ⟨⟨hshapes, -⟩, rfl⟩
      simp [List.map_eq_nil_iff.mp hshapes]
  | cons s shapes ih =>
    constructor
    intro input fields rest
    simp only [readFields, Reader.bind_eq_ok_iff, Reader.pure_eq_ok_iff,
      s.accepts_read.eq_ok_iff, ih.eq_ok_iff]
    constructor
    · rintro ⟨v, mid, ⟨hv, rfl⟩, fields, mid', ⟨⟨rfl, hfits⟩, rfl⟩, rfl, rfl⟩
      refine ⟨⟨rfl, List.forall_mem_cons.mpr ⟨hv, hfits⟩⟩, ?_⟩
      rw [encodeFields_cons, List.append_assoc]
    · rintro ⟨⟨hshapes, hfits⟩, rfl⟩
      obtain ⟨⟨s, v⟩, fields, rfl, rfl, rfl⟩ := List.map_eq_cons_iff.mp hshapes
      obtain ⟨hv, hfits⟩ := List.forall_mem_cons.mp hfits
      rw [encodeFields_cons, List.append_assoc]
      exact ⟨v, _, ⟨hv, rfl⟩, fields, _, ⟨⟨rfl, hfits⟩, rfl⟩, rfl, rfl⟩

/-- **Reading undoes writing.** Whatever row of fields is written and whatever bytes follow it, reading
fields of the same shapes in the same order gives back just these fields and leaves just the bytes that
follow, if and only if each field is within the bounds of its shape. -/
theorem readFields_encodeFields (fields : List Field) (suffix : List UInt8) :
    readFields (fields.map Sigma.fst) (encodeFields fields ++ suffix) = .ok fields suffix
      ↔ ∀ f ∈ fields, f.1.Fits f.2 := by
  simp [(accepts_readFields _).eq_ok_iff]

/-- Two lists of truth values, of which the second is empty, and a number. -/
example : readFields [.array 2 (.array 2 .bool), .varInt 300] [2, 1, 1, 0, 172, 2, 9]
    = .ok [⟨.array 2 (.array 2 .bool), [[true], []]⟩, ⟨.varInt 300, (300 : Nat)⟩] [9] := by
  cbv

end BoundedVm
