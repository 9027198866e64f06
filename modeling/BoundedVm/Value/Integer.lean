import BoundedVm.Bytes.TwosComplement
import BoundedVm.Value.Fault

/-! # Bounded integers

An `Integer` is a number whose minimal two's complement has at most `maxIntegerSize` bytes.
`Integer.ofInt` and `Integer.ofBytes` refuse what does not fit, and `Integer.ofNative` cannot fail,
since every machine integer of up to 64 bits fits nine bytes. -/

namespace BoundedVm

/-- A number that fits the bytes an integer may have. -/
structure Integer where
  value : Int
  fits : TwosComplement.size value ≤ maxIntegerSize
  deriving DecidableEq

/-- A machine integer of up to 64 bits. -/
inductive Native where
  | i8 (v : Int8)
  | u8 (v : UInt8)
  | i16 (v : Int16)
  | u16 (v : UInt16)
  | i32 (v : Int32)
  | u32 (v : UInt32)
  | i64 (v : Int64)
  | u64 (v : UInt64)
  deriving DecidableEq

namespace Native

/-- The number that a machine integer stands for. -/
def toInt : Native → Int
  | i8 v => v.toInt
  | u8 v => v.toNat
  | i16 v => v.toInt
  | u16 v => v.toNat
  | i32 v => v.toInt
  | u32 v => v.toNat
  | i64 v => v.toInt
  | u64 v => v.toNat

/-- Every machine integer lies between the least signed and the greatest unsigned one of 64 bits. -/
theorem toInt_bounds (n : Native) : -0x8000000000000000 ≤ n.toInt ∧
    n.toInt < 0x10000000000000000 := by
  cases n with
  | i8 v => have := v.le_toInt; have := v.toInt_lt; simp only [toInt]; omega
  | u8 v => have := v.toNat_lt; simp only [toInt]; omega
  | i16 v => have := v.le_toInt; have := v.toInt_lt; simp only [toInt]; omega
  | u16 v => have := v.toNat_lt; simp only [toInt]; omega
  | i32 v => have := v.le_toInt; have := v.toInt_lt; simp only [toInt]; omega
  | u32 v => have := v.toNat_lt; simp only [toInt]; omega
  | i64 v => have := v.le_toInt; have := v.toInt_lt; simp only [toInt]; omega
  | u64 v => have := v.toNat_lt; simp only [toInt]; omega

end Native

namespace Integer

@[ext] theorem ext {a b : Integer} (h : a.value = b.value) : a = b := by
  cases a
  cases b
  simp_all

/-- The integer of a number, refused when it does not fit. -/
def ofInt (v : Int) : Except ValueFault Integer :=
  if h : TwosComplement.size v ≤ maxIntegerSize then .ok ⟨v, h⟩
  else .error (.integerTooLong (TwosComplement.size v))

/-- The integer written by bytes in two's complement, which need not be minimal; more bytes than an
integer may have are refused. -/
def ofBytes (bytes : List UInt8) : Except ValueFault Integer :=
  if bytes.length > maxIntegerSize then .error (.integerTooLong bytes.length)
  else ofInt (TwosComplement.decode bytes)

/-- The integer of a machine integer. -/
def ofNative (n : Native) : Integer :=
  ⟨n.toInt, (TwosComplement.size_le_iff (by decide)).mpr (by
    have := n.toInt_bounds
    have hwide : 0x20000000000000000 ≤ LittleEndian.bound maxIntegerSize := by decide
    omega)⟩

/-- The integer zero. -/
def zero : Integer := ⟨0, by decide⟩

/-- The integer of a truth value. -/
def ofBool (b : Bool) : Integer :=
  ofNative (.u8 (if b then 1 else 0))

/-- The number of bytes of the minimal form, none for zero. -/
def size (i : Integer) : Nat := TwosComplement.size i.value

/-- The minimal form in two's complement. -/
def bytes (i : Integer) : List UInt8 := TwosComplement.encode i.value

/-- Whether the number is zero. -/
def isZero (i : Integer) : Bool := i.value = 0

/-- The truth value of an integer: whether it is not zero. -/
def toBool (i : Integer) : Bool := !i.isZero

/-- The decimal text. -/
def text (i : Integer) : String := toString i.value

instance : Inhabited Integer := ⟨zero⟩

@[simp] theorem value_ofNative (n : Native) : (ofNative n).value = n.toInt := rfl

@[simp] theorem value_zero : zero.value = 0 := rfl

end Integer

end BoundedVm
