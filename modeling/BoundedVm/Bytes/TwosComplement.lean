import BoundedVm.Bytes.LittleEndian

/-! # Two's complement of minimal length

An integer is written in little-endian two's complement with as few bytes as show its sign: zero by no
byte at all, every other integer by one byte for each eight bits begun, the sign bit included. -/

namespace BoundedVm

namespace TwosComplement

/-- The number of binary digits of a natural number, none for zero. -/
def bits (n : Nat) : Nat :=
  if n = 0 then 0 else n.log2 + 1

/-- The least number of bytes that hold an integer in two's complement. A negative integer is measured
by one less than its magnitude, since the least of them still fits. -/
def size (v : Int) : Nat :=
  if v = 0 then 0
  else match v with
    | .ofNat n => bits n / 8 + 1
    | .negSucc n => bits n / 8 + 1

/-- The minimal form of an integer, lowest byte first. -/
def encode (v : Int) : List UInt8 :=
  LittleEndian.encode (size v) (v % LittleEndian.bound (size v)).toNat

/-- The integer that the given bytes stand for, the highest bit of the last byte giving the sign. -/
def decode (bytes : List UInt8) : Int :=
  let n := LittleEndian.decode bytes
  let bound := LittleEndian.bound bytes.length
  if 2 * n < bound then n else (n : Int) - bound

@[simp] theorem size_zero : size 0 = 0 := rfl

@[simp] theorem encode_zero : encode 0 = [] := rfl

@[simp] theorem decode_nil : decode [] = 0 := rfl

@[simp] theorem length_encode (v : Int) : (encode v).length = size v := by
  simp [encode]

/-- A natural number has at most `m` binary digits when it is below the least with one more. -/
theorem bits_le_iff {n m : Nat} : bits n ≤ m ↔ n < 1 <<< m := by
  rw [Nat.one_shiftLeft]
  unfold bits
  split
  · rename_i h
    exact ⟨fun _ => h ▸ Nat.two_pow_pos m, fun _ => Nat.zero_le m⟩
  · rename_i h
    rw [← Nat.log2_lt h]
    omega

/-- An integer fits `k` bytes when its double lies in the range of the numbers of `k` bytes, counted from
zero to either side. -/
theorem size_le_iff {v : Int} {k : Nat} (hk : k ≠ 0) :
    size v ≤ k ↔ -LittleEndian.bound k ≤ 2 * v ∧ 2 * v < LittleEndian.bound k := by
  -- one of the bits shows the sign
  have hbound : LittleEndian.bound k = 2 * 1 <<< (8 * k - 1) := by
    rw [LittleEndian.bound, Nat.one_shiftLeft, Nat.one_shiftLeft, ← Nat.pow_succ']
    congr 1
    omega
  have hpos : 0 < 1 <<< (8 * k - 1) := by
    rw [Nat.one_shiftLeft]
    exact Nat.two_pow_pos _
  unfold size
  split
  · rename_i h
    subst h
    omega
  -- apart from zero the size is one byte more than the whole bytes of the digits
  · cases v with
    | ofNat n =>
      have h := bits_le_iff (n := n) (m := 8 * k - 1)
      rw [Int.ofNat_eq_natCast]
      simp only
      omega
    | negSucc n =>
      have h := bits_le_iff (n := n) (m := 8 * k - 1)
      simp only
      omega

end TwosComplement

end BoundedVm
