import BoundedVm.Bytes.Leb128
import BoundedVm.Bytes.LittleEndian

/-! # Writing values as bytes

The byte forms that objects are made of: fixed-width numbers lowest byte first, var-ints, and byte
strings, texts and lists that begin with their length as a var-int. -/

namespace BoundedVm

namespace Wire

/-- A truth value as one byte. -/
def bool (b : Bool) : List UInt8 := [if b then 1 else 0]

/-- A number of 16 bits as two bytes. -/
def u16 (n : UInt16) : List UInt8 := LittleEndian.encode 2 n.toNat

/-- A number of 32 bits as four bytes. -/
def u32 (n : UInt32) : List UInt8 := LittleEndian.encode 4 n.toNat

/-- A number of 64 bits as eight bytes. -/
def u64 (n : UInt64) : List UInt8 := LittleEndian.encode 8 n.toNat

/-- A number in the shortest form of base 128. -/
def varInt (n : Nat) : List UInt8 := Leb128.encode n

/-- A byte string after its length. -/
def varBytes (bytes : List UInt8) : List UInt8 := varInt bytes.length ++ bytes

/-- The UTF-8 bytes of a text after their number. -/
def varString (s : String) : List UInt8 := varBytes s.toUTF8.data.toList

/-- The forms of some values after their number. -/
def array {α : Type} (item : α → List UInt8) (xs : List α) : List UInt8 :=
  varInt xs.length ++ xs.flatMap item

end Wire

end BoundedVm
