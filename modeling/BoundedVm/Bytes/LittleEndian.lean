/-! # Little-endian numbers of fixed width

`LittleEndian.encode w n` writes the low `w` bytes of `n`, lowest first, and `LittleEndian.decode`
reads them back. The two are inverse to each other on the numbers below `LittleEndian.bound w` and on
lists of `w` bytes. -/

namespace BoundedVm

namespace LittleEndian

/-- The low `width` bytes of a number, lowest first. -/
def encode : (width : Nat) → Nat → List UInt8
  | 0, _ => []
  | width + 1, n => UInt8.ofNat n :: encode width (n / 256)

/-- The least number that does not fit `width` bytes. -/
def bound (width : Nat) : Nat := 1 <<< (8 * width)

/-- The number whose bytes, lowest first, are given. -/
def decode : List UInt8 → Nat
  | [] => 0
  | b :: rest => b.toNat + 256 * decode rest

@[simp] theorem encode_zero (n : Nat) : encode 0 n = [] := rfl

@[simp] theorem encode_succ (width n : Nat) :
    encode (width + 1) n = UInt8.ofNat n :: encode width (n / 256) := rfl

@[simp] theorem decode_nil : decode [] = 0 := rfl

@[simp] theorem decode_cons (b : UInt8) (rest : List UInt8) :
    decode (b :: rest) = b.toNat + 256 * decode rest := rfl

@[simp] theorem length_encode (width n : Nat) : (encode width n).length = width := by
  induction width generalizing n with
  | zero => rfl
  | succ width ih => simp [ih]

@[simp] theorem bound_zero : bound 0 = 1 := rfl

theorem bound_succ (width : Nat) : bound (width + 1) = 256 * bound width := by
  rw [bound, bound, Nat.one_shiftLeft, Nat.one_shiftLeft, Nat.mul_succ, Nat.pow_add, Nat.mul_comm]

/-- A list of bytes stands for a number that fits them. -/
theorem decode_lt (bytes : List UInt8) : decode bytes < bound bytes.length := by
  induction bytes with
  | nil => simp
  | cons b rest ih =>
    have hb := b.toNat_lt
    rw [decode_cons, List.length_cons, bound_succ]
    omega

/-- A number that fits the width is read back from its bytes. -/
theorem decode_encode {width n : Nat} (h : n < bound width) : decode (encode width n) = n := by
  induction width generalizing n with
  | zero => simp at h; simp [h]
  | succ width ih =>
    rw [encode_succ, decode_cons, ih (by rw [bound_succ] at h; omega), UInt8.toNat_ofNat']
    omega

/-- Bytes are written back from the number they stand for. -/
theorem encode_decode (bytes : List UInt8) : encode bytes.length (decode bytes) = bytes := by
  induction bytes with
  | nil => rfl
  | cons b rest ih =>
    have hb := b.toNat_lt
    rw [List.length_cons, encode_succ, decode_cons]
    congr 1
    · apply UInt8.toNat_inj.mp
      rw [UInt8.toNat_ofNat']
      omega
    · rw [show (b.toNat + 256 * decode rest) / 256 = decode rest by omega, ih]

end LittleEndian

end BoundedVm
