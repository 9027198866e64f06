import BoundedVm.Text.Latin

/-! # Hexadecimal text of bytes

`Hex.encode` writes two lower-case digits per byte. `Hex.decode` reads digits of either case and
reports the first fault in a fixed order: an odd number of digits, then (for a fixed size) a wrong
length, then the first byte of the text that is no digit. Lengths and positions count the UTF-8 bytes
of the text, so that a character outside ASCII counts as several bad digits. -/

namespace BoundedVm

/-- Why a text is not the hexadecimal form of the bytes asked for. -/
inductive HexFault where
  /-- The text has an odd number of bytes. -/
  | oddLength
  /-- The text does not have twice as many bytes as the value asked for. -/
  | wrongLength
  /-- The byte at this position of the text is not a hexadecimal digit. -/
  | badDigit (byte : UInt8) (position : Nat)
  deriving DecidableEq

namespace HexFault

/-- The wording of a fault. -/
def message : HexFault → String
  | oddLength => "Odd number of digits"
  | wrongLength => "Invalid string length"
  | badDigit byte position =>
    "Invalid character " ++ quoteLatin byte ++ " at position " ++ toString position

end HexFault

/-- The UTF-8 bytes of a text. -/
def utf8Bytes (text : List Char) : List UInt8 :=
  text.flatMap String.utf8EncodeChar

namespace Hex

/-- The lower-case digit of a number below sixteen. -/
def digitChar (n : Nat) : Char :=
  if n < 10 then Char.ofNat (48 + n) else Char.ofNat (87 + n)

/-- The value of a hexadecimal digit of either case, given as a byte of text. -/
def digit? (b : UInt8) : Option Nat :=
  if 48 ≤ b ∧ b ≤ 57 then some (b.toNat - 48)
  else if 97 ≤ b ∧ b ≤ 102 then some (b.toNat - 87)
  else if 65 ≤ b ∧ b ≤ 70 then some (b.toNat - 55)
  else none

/-- The text without one leading `0x`, or unchanged when it does not start so. -/
def dropMark : List Char → List Char
  | '0' :: 'x' :: rest => rest
  | text => text

/-- Two lower-case digits per byte, the high half first. -/
def encode (bytes : List UInt8) : List Char :=
  bytes.flatMap fun b => [digitChar (b.toNat / 16), digitChar (b.toNat % 16)]

/-- The hexadecimal text as a string. -/
def text (bytes : List UInt8) : String :=
  String.ofList (encode bytes)

@[simp] theorem encode_nil : encode [] = [] := rfl

@[simp] theorem encode_cons (b : UInt8) (bytes : List UInt8) :
    encode (b :: bytes)
      = digitChar (b.toNat / 16) :: digitChar (b.toNat % 16) :: encode bytes := rfl

/-- The value of the digit at a position of the text, or the fault that it is none. -/
def digitAt (position : Nat) (b : UInt8) : Except HexFault Nat :=
  match digit? b with
  | some n => .ok n
  | none => .error (.badDigit b position)

/-- Reads pairs of digits, the first pair standing at `position` of the text. -/
def decodePairs (position : Nat) : List UInt8 → Except HexFault (List UInt8)
  | high :: low :: rest =>
    match digitAt position high with
    | .error e => .error e
    | .ok h =>
      match digitAt (position + 1) low with
      | .error e => .error e
      | .ok l => (decodePairs (position + 2) rest).map (UInt8.ofNat (16 * h + l) :: ·)
  | _ => .ok []

/-- The bytes written by a hexadecimal text of any even length. -/
def decode (text : List Char) : Except HexFault (List UInt8) :=
  let bytes := utf8Bytes text
  if bytes.length % 2 ≠ 0 then .error .oddLength else decodePairs 0 bytes

/-- The bytes written by a hexadecimal text for a value of exactly `size` bytes. -/
def decodeSized (size : Nat) (text : List Char) : Except HexFault (List UInt8) :=
  let bytes := utf8Bytes text
  if bytes.length % 2 ≠ 0 then .error .oddLength
  else if bytes.length ≠ 2 * size then .error .wrongLength
  else decodePairs 0 bytes

/-- Pairs of digits that are all read give one byte each. -/
theorem length_of_decodePairs {position : Nat} {text bytes : List UInt8}
    (h : decodePairs position text = .ok bytes) : bytes.length = text.length / 2 := by
  fun_induction decodePairs position text generalizing bytes with
  | case1 => simp at h
  | case2 => simp at h
  | case3 position high low rest n _ m _ ih =>
    cases hr : decodePairs (position + 2) rest with
    | error e => simp [hr, Except.map] at h
    | ok tail =>
      simp only [hr, Except.map, Except.ok.injEq] at h
      subst h
      simp [ih hr]
      omega
  | case4 text _ hne =>
    match text with
    | [] => simp at h; simp [h]
    | [b] => simp at h; simp [h]
    | high :: low :: rest => exact absurd rfl (hne high low rest)

/-- A sized text that is read gives a value of that size. -/
theorem length_of_decodeSized {size : Nat} {text : List Char} {bytes : List UInt8}
    (h : decodeSized size text = .ok bytes) : bytes.length = size := by
  simp only [decodeSized] at h
  split at h
  · simp at h
  · split at h
    · simp at h
    · rename_i hlen
      have := length_of_decodePairs h
      simp only [ne_eq, Decidable.not_not] at hlen
      omega

end Hex

end BoundedVm
