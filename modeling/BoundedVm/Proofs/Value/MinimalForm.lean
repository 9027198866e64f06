import BoundedVm.Value.Integer
import Mathlib.Algebra.Ring.Int.Defs
import Mathlib.Order.Bounds.Basic

/-! # The minimal form of an integer

Bytes in two's complement can be padded with copies of the sign, so that a number has forms of every
length from its least one on. The size of an integer is computed from its binary digits, apart from the
bytes; here it is shown to be the length of the one shortest form, at every boundary and for both signs.

* `TwosComplement.decode_encode`, `TwosComplement.encode_decode`: what is written and what is read.
* `TwosComplement.encode_eq_signedBytes`: the form that is split off byte by byte has the same length.
* `Integer.form_exact`: the range of integers, their forms and the bytes that are read. -/

namespace BoundedVm

namespace TwosComplement

/-! ## Bounds -/

theorem bound_pos (k : Nat) : 0 < LittleEndian.bound k := by
  rw [LittleEndian.bound, Nat.one_shiftLeft]
  exact Nat.two_pow_pos _

/-- One of the bits of at least one byte shows the sign. -/
theorem exists_bound_eq_two_mul {k : Nat} (hk : k ≠ 0) :
    ∃ half : Nat, 0 < half ∧ LittleEndian.bound k = 2 * half := by
  obtain ⟨k, rfl⟩ := Nat.exists_eq_succ_of_ne_zero hk
  refine ⟨128 * LittleEndian.bound k, Nat.mul_pos (by decide) (bound_pos k), ?_⟩
  rw [LittleEndian.bound_succ]
  omega

theorem size_eq_zero_iff {v : Int} : size v = 0 ↔ v = 0 := by
  constructor
  · intro hsize
    by_contra hv
    unfold size at hsize
    rw [if_neg hv] at hsize
    cases v <;> cases hsize
  · rintro rfl
    rfl

/-- A number lies within the range that its size has room for. -/
theorem range_of_size (v : Int) : -LittleEndian.bound (size v) ≤ 2 * v
    ∧ 2 * v < LittleEndian.bound (size v) := by
  by_cases hv : v = 0
  · subst hv
    rw [size_zero, LittleEndian.bound_zero]
    omega
  · exact (size_le_iff (mt size_eq_zero_iff.1 hv)).mp (Nat.le_refl _)

/-! ## Written and read -/

/-- What bytes stand for fits as many bytes. -/
theorem size_decode_le (bytes : List UInt8) : size (decode bytes) ≤ bytes.length := by
  by_cases hlen : bytes.length = 0
  · obtain rfl := List.length_eq_zero_iff.mp hlen
    exact Nat.le_refl 0
  · obtain ⟨half, hpos, hhalf⟩ := exists_bound_eq_two_mul hlen
    have hlt := LittleEndian.decode_lt bytes
    rw [size_le_iff hlen, hhalf]
    simp only [decode, hhalf] at hlt ⊢
    split <;> omega

/-- What bytes stand for is their unsigned number, but for a multiple of the bound. -/
theorem decode_emod (bytes : List UInt8) :
    decode bytes % LittleEndian.bound bytes.length = LittleEndian.decode bytes := by
  have hlt := LittleEndian.decode_lt bytes
  have hnat : (LittleEndian.decode bytes : Int) % LittleEndian.bound bytes.length
      = LittleEndian.decode bytes := Int.emod_eq_of_lt (by omega) (by omega)
  simp only [decode]
  split
  · exact hnat
  · rw [Int.sub_emod_right, hnat]

/-- Bytes that are as few as their number needs are written back from it. -/
theorem encode_decode {bytes : List UInt8} (hsize : size (decode bytes) = bytes.length) :
    encode (decode bytes) = bytes := by
  rw [encode, hsize, decode_emod, Int.toNat_natCast, LittleEndian.encode_decode]

/-- A number is read back from its form. -/
theorem decode_encode (v : Int) : decode (encode v) = v := by
  obtain ⟨hlow, hhigh⟩ := range_of_size v
  have hpos := bound_pos (size v)
  generalize hbound : LittleEndian.bound (size v) = bound at hlow hhigh hpos
  have hnonneg : 0 ≤ v % bound := Int.emod_nonneg v (by omega)
  have hlt : v % bound < bound := Int.emod_lt_of_pos v (by omega)
  have hread : LittleEndian.decode (encode v) = (v % bound).toNat := by
    rw [encode, hbound]
    refine LittleEndian.decode_encode ?_
    rw [hbound]
    omega
  simp only [decode, hread, length_encode, hbound]
  -- a number that is not negative is its own residue, and a negative one is short of it by the bound
  by_cases hv : 0 ≤ v
  · rw [Int.emod_eq_of_lt hv (by omega), if_pos (by omega)]
    omega
  · have hresidue : v % bound = v + bound := by
      rw [← Int.add_emod_right, Int.emod_eq_of_lt (by omega) (by omega)]
    rw [hresidue, if_neg (by omega)]
    omega

/-- **The shortest form.** Every other form of a number is longer. -/
theorem length_encode_lt {v : Int} {bytes : List UInt8} (hv : decode bytes = v)
    (hne : bytes ≠ encode v) : (encode v).length < bytes.length := by
  subst hv
  have hle := size_decode_le bytes
  rw [length_encode]
  refine Nat.lt_of_le_of_ne hle fun hsize => hne ?_
  exact (encode_decode hsize).symm

theorem isLeast_size (v : Int) :
    IsLeast {n | ∃ bytes : List UInt8, bytes.length = n ∧ decode bytes = v} (size v) := by
  refine ⟨⟨encode v, length_encode v, decode_encode v⟩, ?_⟩
  rintro _ ⟨bytes, rfl, rfl⟩
  exact size_decode_le bytes

/-! ## Splitting off bytes -/

/-- The bytes of a number, split off one by one, the lowest first: what is left is written until it fits
one byte. Zero is written too. -/
def signedBytes (v : Int) : List UInt8 :=
  if -128 ≤ v ∧ v < 128 then [UInt8.ofNat (v % 256).toNat]
  else UInt8.ofNat (v % 256).toNat :: signedBytes (v / 256)
termination_by v.natAbs
decreasing_by omega

/-- A number that does not fit one byte fits one byte more than what is left of it. -/
theorem size_le_succ_iff {v : Int} {k : Nat} (hk : k ≠ 0) :
    size v ≤ k + 1 ↔ size (v / 256) ≤ k := by
  obtain ⟨half, hpos, hhalf⟩ := exists_bound_eq_two_mul hk
  rw [size_le_iff (Nat.succ_ne_zero k), size_le_iff hk, LittleEndian.bound_succ, hhalf]
  omega

theorem size_le_one_iff {v : Int} : size v ≤ 1 ↔ -128 ≤ v ∧ v < 128 := by
  have hbound : (LittleEndian.bound 1 : Int) = 256 := rfl
  rw [size_le_iff Nat.one_ne_zero, hbound]
  omega

theorem length_signedBytes (v : Int) : (signedBytes v).length = max 1 (size v) := by
  fun_induction signedBytes v with
  | case1 v hv =>
    have hone := size_le_one_iff.2 hv
    rw [List.length_singleton]
    omega
  | case2 v hv ih =>
    have hmore : ¬ size v ≤ 1 := mt size_le_one_iff.1 hv
    -- the size is the least number of bytes that are enough, and so is the size of what is left
    have hleft : size (v / 256) ≤ size v - 1 := by
      rw [← size_le_succ_iff (by omega)]
      omega
    have hright : size v ≤ max 1 (size (v / 256)) + 1 := by
      rw [size_le_succ_iff (by omega)]
      omega
    rw [List.length_cons, ih]
    omega

theorem decode_cons {b : UInt8} {bytes : List UInt8} (hne : bytes ≠ []) :
    decode (b :: bytes) = b.toNat + 256 * decode bytes := by
  have hlen : bytes.length ≠ 0 := mt List.length_eq_zero_iff.mp hne
  obtain ⟨half, hpos, hhalf⟩ := exists_bound_eq_two_mul hlen
  have hb := b.toNat_lt
  simp only [decode, LittleEndian.decode_cons, List.length_cons, LittleEndian.bound_succ, hhalf]
  split <;> split <;> omega

theorem signedBytes_ne_nil (v : Int) : signedBytes v ≠ [] := by
  rw [signedBytes]
  split <;> exact List.cons_ne_nil _ _

theorem decode_signedBytes (v : Int) : decode (signedBytes v) = v := by
  have hbyte : ∀ v : Int, (UInt8.ofNat (v % 256).toNat).toNat = v % 256 := by
    intro v
    rw [UInt8.toNat_ofNat']
    omega
  fun_induction signedBytes v with
  | case1 v hv =>
    have hone : LittleEndian.bound 1 = 256 := rfl
    have hlow := hbyte v
    simp only [decode, LittleEndian.decode_cons, LittleEndian.decode_nil, List.length_singleton,
      hone]
    split <;> omega
  | case2 v hv ih =>
    rw [decode_cons (signedBytes_ne_nil _), ih, hbyte]
    omega

/-- **Size and bytes agree.** What is split off byte by byte is the form whose length is the size. -/
theorem encode_eq_signedBytes {v : Int} (hv : v ≠ 0) : encode v = signedBytes v := by
  by_contra hne
  have hlt := length_encode_lt (decode_signedBytes v) (Ne.symm hne)
  have hpos : size v ≠ 0 := mt size_eq_zero_iff.1 hv
  rw [length_encode, length_signedBytes] at hlt
  omega

end TwosComplement

namespace Integer

open TwosComplement

/-! ## Integers -/

/-- The integers are the numbers of 256 bits. -/
theorem size_le_max_iff {v : Int} :
    TwosComplement.size v ≤ maxIntegerSize ↔ -2 ^ 255 ≤ v ∧ v < 2 ^ 255 := by
  have hbound : (LittleEndian.bound maxIntegerSize : Int) = 2 * 2 ^ 255 := by decide
  rw [size_le_iff (by decide), hbound]
  omega

theorem ofBytes_of_length_le {bytes : List UInt8} (hlen : bytes.length ≤ maxIntegerSize) :
    ∃ i, ofBytes bytes = .ok i ∧ i.value = decode bytes := by
  have hsize := (size_decode_le bytes).trans hlen
  refine ⟨⟨decode bytes, hsize⟩, ?_, rfl⟩
  rw [ofBytes, if_neg (Nat.not_lt.mpr hlen), ofInt, dif_pos hsize]

theorem value_of_ofBytes_eq_ok {bytes : List UInt8} {i : Integer} (hi : ofBytes bytes = .ok i) :
    i.value = decode bytes := by
  unfold ofBytes at hi
  split at hi
  · cases hi
  · unfold ofInt at hi
    split at hi <;> cases hi
    rfl

/-- What the form of an integer is like. -/
structure HasMinimalForm (i : Integer) : Prop where
  size_eq : i.size = i.bytes.length
  /-- Only zero is written by no byte. -/
  size_eq_zero_iff : i.size = 0 ↔ i.value = 0
  bytes_eq : i.bytes = if i.value = 0 then [] else signedBytes i.value
  ofBytes_bytes : ofBytes i.bytes = .ok i
  /-- Other bytes from which the same number is read are more. -/
  length_lt : ∀ bytes j, ofBytes bytes = .ok j → j.value = i.value → bytes ≠ i.bytes →
    i.bytes.length < bytes.length

theorem hasMinimalForm (i : Integer) : i.HasMinimalForm where
  size_eq := (length_encode i.value).symm
  size_eq_zero_iff := TwosComplement.size_eq_zero_iff
  bytes_eq := by
    split
    · rename_i hzero
      rw [bytes, hzero, encode_zero]
    · rename_i hne
      exact encode_eq_signedBytes hne
  ofBytes_bytes := by
    have hlen : i.bytes.length ≤ maxIntegerSize := (length_encode i.value).trans_le i.fits
    obtain ⟨j, hj, hvalue⟩ := ofBytes_of_length_le hlen
    rw [hj, ext (hvalue.trans (decode_encode i.value))]
  length_lt bytes j hj hvalue hne :=
    length_encode_lt ((value_of_ofBytes_eq_ok hj).symm.trans hvalue) hne

theorem ofInt_value (i : Integer) : ofInt i.value = .ok i := by
  rw [ofInt, dif_pos i.fits]

/-- **The form of an integer.** A number is an integer if it lies within 256 bits, and it is refused
otherwise, with the least number of bytes that it could be written by. Every integer has one shortest
form, of the length that its size says. Bytes are read if there are at most 32, as the number that they
stand for, and refused otherwise, with their number. A machine integer is the integer of its number. -/
theorem form_exact :
    (∀ v : Int, (-2 ^ 255 ≤ v ∧ v < 2 ^ 255) ∧ (∃ i, ofInt v = .ok i ∧ i.value = v ∧ i.HasMinimalForm)
      ∨ ¬ (-2 ^ 255 ≤ v ∧ v < 2 ^ 255) ∧ ∃ n, ofInt v = .error (.integerTooLong n)
        ∧ IsLeast {n | ∃ bytes : List UInt8, bytes.length = n ∧ decode bytes = v} n)
    ∧ (∀ bytes : List UInt8,
      bytes.length ≤ 32 ∧ (∃ i, ofBytes bytes = .ok i ∧ i.value = decode bytes)
      ∨ 32 < bytes.length ∧ ofBytes bytes = .error (.integerTooLong bytes.length))
    ∧ ∀ n : Native, (ofNative n).value = n.toInt ∧ ofInt n.toInt = .ok (ofNative n) := by
  refine ⟨fun v => ?_, fun bytes => ?_, fun n => ⟨rfl, ofInt_value (ofNative n)⟩⟩
  · by_cases hfits : TwosComplement.size v ≤ maxIntegerSize
    · refine .inl ⟨size_le_max_iff.1 hfits, ⟨v, hfits⟩, ?_, rfl, hasMinimalForm _⟩
      rw [ofInt, dif_pos hfits]
    · refine .inr ⟨mt size_le_max_iff.2 hfits, TwosComplement.size v, ?_, isLeast_size v⟩
      rw [ofInt, dif_neg hfits]
  · by_cases hlen : bytes.length ≤ maxIntegerSize
    · exact .inl ⟨hlen, ofBytes_of_length_le hlen⟩
    · refine .inr ⟨Nat.lt_of_not_le hlen, ?_⟩
      rw [ofBytes, if_pos (Nat.lt_of_not_le hlen)]

/-- A power of two needs one byte more than its negative, also where bytes are full. -/
example : (ofInt (2 ^ 255)) = .error (.integerTooLong 33)
    ∧ TwosComplement.size (-2 ^ 255) = 32 := by
  decide

end Integer

end BoundedVm
