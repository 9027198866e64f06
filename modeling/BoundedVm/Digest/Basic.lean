import BoundedVm.Bytes.Hex
import BoundedVm.Digest.Blake3
import BoundedVm.Digest.Sha256

/-! # Digests of fixed width

A `Digest n` is a value of `n` bytes that names an object or an account. It is stored lowest byte
first and written highest byte first: `Digest.text` is `0x` and the hexadecimal digits of the reversed
bytes, and `Digest.ofText` reads such a text with or without its mark and in either case. Digests are
ordered by their stored bytes. -/

namespace BoundedVm

/-- A value of `width` bytes, kept lowest byte first. -/
structure Digest (width : Nat) where
  bytes : List UInt8
  length_bytes : bytes.length = width
  deriving DecidableEq

/-- The name of an account: the hash of the script that controls it. -/
abbrev Account := Digest 20

/-- The name of an object: the hash of its unsigned form. -/
abbrev ObjectId := Digest 32

namespace Digest

variable {width : Nat}

@[ext] theorem ext {a b : Digest width} (h : a.bytes = b.bytes) : a = b := by
  cases a
  cases b
  simp_all

/-- The digest whose bytes are all zero. -/
def zero : Digest width := ⟨List.replicate width 0, List.length_replicate⟩

instance : Inhabited (Digest width) := ⟨zero⟩

/-- Whether every byte is zero. -/
def isZero (d : Digest width) : Bool :=
  d.bytes.all (· == 0)

/-- The digest with the given bytes, if they are as many as it needs. -/
def ofBytes? (bytes : List UInt8) : Option (Digest width) :=
  if h : bytes.length = width then some ⟨bytes, h⟩ else none

/-- The written form: `0x` and the hexadecimal digits, highest byte first. -/
def text (d : Digest width) : String :=
  String.ofList ('0' :: 'x' :: Hex.encode d.bytes.reverse)

/-- The digest that a text writes, with or without its mark. -/
def ofText (source : List Char) : Except HexFault (Digest width) :=
  match h : Hex.decodeSized width (Hex.dropMark source) with
  | .error e => .error e
  | .ok bytes => .ok ⟨bytes.reverse, by rw [List.length_reverse, Hex.length_of_decodeSized h]⟩

/-- The order of two digests by their stored bytes, the first byte deciding first. -/
def order (a b : Digest width) : Ordering :=
  compare a.bytes b.bytes

/-- The SHA-256 digest of a message. -/
def sha256 (message : List UInt8) : ObjectId :=
  ⟨Sha256.digest message, Sha256.length_digest message⟩

/-- The account that a script controls: the first twenty bytes of its BLAKE3 hash. -/
def ofScript (script : List UInt8) : Account :=
  ⟨(Blake3.digest script).take 20, by simp⟩

end Digest

end BoundedVm
