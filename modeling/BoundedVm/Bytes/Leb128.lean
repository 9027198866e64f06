/-! # Unsigned LEB128 within 64 bits

A number is written in base 128, lowest digit first, one digit per byte; every byte but the last has
its high bit set. Reading takes any run of digits, also one padded with zeros, but at most ten bytes:
the tenth may only be 0 or 1, and any other tenth byte is an overflow, which is reported only once the
byte that ends the run has been found. -/

namespace BoundedVm

namespace Leb128

/-- The shortest form of a number. -/
def encode (n : Nat) : List UInt8 :=
  if n < 128 then [UInt8.ofNat n] else UInt8.ofNat (n % 128 + 128) :: encode (n / 128)
termination_by n

/-- What reading a number from the front of a list of bytes ends with. -/
inductive Outcome where
  /-- The bytes ended before the number did. -/
  | exhausted
  /-- The number does not fit 64 bits. -/
  | overflow
  /-- The number read, and the bytes after it. -/
  | number (value : Nat) (rest : List UInt8)
  deriving DecidableEq

/-- Whether a run of bytes has an end: a byte without the high bit. -/
def terminates (bytes : List UInt8) : Bool :=
  bytes.any (· < 128)

/-- Reads on at the given place, `acc` being the value of the lower places. -/
def decodeFrom (place acc : Nat) : List UInt8 → Outcome
  | [] => .exhausted
  | b :: rest =>
    if place = 9 ∧ 1 < b then
      -- a run without an end is exhausted, however large its digits are
      if b < 128 ∨ terminates rest then .overflow else .exhausted
    else
      let acc := acc + (b.toNat % 128) <<< (7 * place)
      if b < 128 then .number acc rest else decodeFrom (place + 1) acc rest

/-- Reads a number from the front of a list of bytes. -/
def decode (bytes : List UInt8) : Outcome :=
  decodeFrom 0 0 bytes

@[simp] theorem decodeFrom_nil (place acc : Nat) : decodeFrom place acc [] = .exhausted := rfl

theorem encode_of_lt {n : Nat} (h : n < 128) : encode n = [UInt8.ofNat n] := by
  rw [encode, if_pos h]

theorem encode_of_le {n : Nat} (h : 128 ≤ n) :
    encode n = UInt8.ofNat (n % 128 + 128) :: encode (n / 128) := by
  rw [encode, if_neg (Nat.not_lt.mpr h)]

end Leb128

end BoundedVm
