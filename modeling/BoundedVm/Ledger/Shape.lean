import BoundedVm.Ledger.Extensible
import BoundedVm.Ledger.Header

/-! # Shapes of fields

A `Shape` says what kind of value stands at a place of a byte form and how long it may be. Each shape
has a type of values, a way to write them and a way to read them; a record of fields is a list of
shapes with their values. -/

namespace BoundedVm

/-- The kind of value at a place of a byte form, with the bounds under which it is read. -/
inductive Shape where
  | u8
  | bool
  | u16
  | u32
  | u64
  /-- A byte string of known length. -/
  | bytes (length : Nat)
  | varInt (max : Nat)
  | varBytes (max : Nat)
  | varString (max : Nat)
  | digest (width : Nat)
  | witness
  | extensible
  | header
  /-- A witness section with a known number of witnesses. -/
  | witnesses (count : Nat)
  | array (max : Nat) (item : Shape)

namespace Shape

/-- The values of a shape. -/
def Value : Shape → Type
  | u8 => UInt8
  | bool => Bool
  | u16 => UInt16
  | u32 => UInt32
  | u64 => UInt64
  | bytes _ => List UInt8
  | varInt _ => Nat
  | varBytes _ => List UInt8
  | varString _ => String
  | digest width => Digest width
  | witness => Witness
  | extensible => ExtensiblePayload
  | header => Header
  | witnesses _ => List Witness
  | array _ item => List item.Value

/-- The bytes of a value. -/
def encode : (s : Shape) → s.Value → List UInt8
  | u8, v => [v]
  | bool, v => Wire.bool v
  | u16, v => Wire.u16 v
  | u32, v => Wire.u32 v
  | u64, v => Wire.u64 v
  | bytes _, v => v
  | varInt _, v => Wire.varInt v
  | varBytes _, v => Wire.varBytes v
  | varString _, v => Wire.varString v
  | digest _, v => Digest.bytes v
  | witness, v => Witness.encode v
  | extensible, v => Verifiable.encode (α := ExtensiblePayload) v
  | header, v => Verifiable.encode (α := Header) v
  | witnesses _, v => Witness.encodeSection v
  | array _ item, v => Wire.array item.encode v

/-- Reads a value. -/
def read : (s : Shape) → Reader s.Value
  | u8 => Reader.u8
  | bool => Reader.bool
  | u16 => Reader.u16
  | u32 => Reader.u32
  | u64 => Reader.u64
  | bytes length => Reader.bytes length
  | varInt max => Reader.varInt max
  | varBytes max => Reader.varBytes max
  | varString max => Reader.varString max
  | digest width => Reader.digest width
  | witness => Witness.read
  | extensible => Verifiable.read (α := ExtensiblePayload)
  | header => Verifiable.read (α := Header)
  | witnesses count => Witness.readSection count
  | array max item => Reader.array max item.read

end Shape

/-- A value with its shape. -/
abbrev Field := (s : Shape) × s.Value

/-- The bytes of some fields one after the other. -/
def encodeFields (fields : List Field) : List UInt8 :=
  fields.flatMap fun f => f.1.encode f.2

end BoundedVm
