import BoundedVm.Digest.Word

/-! # SHA-256

The message is padded to whole blocks of sixteen 32-bit words, and each block is mixed into a state of
eight words by sixty-four rounds. `Sha256.digest` gives the thirty-two bytes of the final state. -/

namespace BoundedVm

namespace Sha256

/-- The eight words carried from block to block. -/
structure State where
  a : UInt32
  b : UInt32
  c : UInt32
  d : UInt32
  e : UInt32
  f : UInt32
  g : UInt32
  h : UInt32

/-- The state before the first block. -/
def initial : State :=
  ⟨0x6a09e667, 0xbb67ae85, 0x3c6ef372, 0xa54ff53a, 0x510e527f, 0x9b05688c, 0x1f83d9ab, 0x5be0cd19⟩

/-- One constant for each round. -/
def roundConstants : List UInt32 :=
  [0x428a2f98, 0x71374491, 0xb5c0fbcf, 0xe9b5dba5, 0x3956c25b, 0x59f111f1, 0x923f82a4, 0xab1c5ed5,
   0xd807aa98, 0x12835b01, 0x243185be, 0x550c7dc3, 0x72be5d74, 0x80deb1fe, 0x9bdc06a7, 0xc19bf174,
   0xe49b69c1, 0xefbe4786, 0x0fc19dc6, 0x240ca1cc, 0x2de92c6f, 0x4a7484aa, 0x5cb0a9dc, 0x76f988da,
   0x983e5152, 0xa831c66d, 0xb00327c8, 0xbf597fc7, 0xc6e00bf3, 0xd5a79147, 0x06ca6351, 0x14292967,
   0x27b70a85, 0x2e1b2138, 0x4d2c6dfc, 0x53380d13, 0x650a7354, 0x766a0abb, 0x81c2c92e, 0x92722c85,
   0xa2bfe8a1, 0xa81a664b, 0xc24b8b70, 0xc76c51a3, 0xd192e819, 0xd6990624, 0xf40e3585, 0x106aa070,
   0x19a4c116, 0x1e376c08, 0x2748774c, 0x34b0bcb5, 0x391c0cb3, 0x4ed8aa4a, 0x5b9cca4f, 0x682e6ff3,
   0x748f82ee, 0x78a5636f, 0x84c87814, 0x8cc70208, 0x90befffa, 0xa4506ceb, 0xbef9a3f7, 0xc67178f2]

/-- The bytes of a word, highest first. -/
def bytesOfWord (w : UInt32) : List UInt8 :=
  [(w >>> 24).toUInt8, (w >>> 16).toUInt8, (w >>> 8).toUInt8, w.toUInt8]

/-- The words of a list of bytes, four bytes each, the highest first. -/
def wordsOfBytes : List UInt8 → List UInt32
  | a :: b :: c :: d :: rest =>
    ((a.toUInt32 <<< 24) ||| (b.toUInt32 <<< 16) ||| (c.toUInt32 <<< 8) ||| d.toUInt32)
      :: wordsOfBytes rest
  | _ => []

/-- What follows a message of the given length: a mark bit, zeros up to the last eight bytes of a
block, and the length in bits. -/
def padding (length : Nat) : List UInt8 :=
  0x80 :: List.replicate ((119 - length % 64) % 64) 0
    ++ bytesOfWord (UInt32.ofNat (8 * length / UInt32.size)) ++ bytesOfWord (UInt32.ofNat (8 * length))

/-- The schedule with its next word, which is computed from the words 16, 15, 7 and 2 places before. -/
def extendSchedule (words : Array UInt32) : Array UInt32 :=
  let n := words.size
  let x := words.getD (n - 15) 0
  let y := words.getD (n - 2) 0
  let s0 := rotateRight x 7 ^^^ rotateRight x 18 ^^^ (x >>> 3)
  let s1 := rotateRight y 17 ^^^ rotateRight y 19 ^^^ (y >>> 10)
  words.push (words.getD (n - 16) 0 + s0 + words.getD (n - 7) 0 + s1)

/-- The sixty-four words of a block's schedule. -/
def schedule (block : List UInt32) : Array UInt32 :=
  Nat.repeat extendSchedule 48 block.toArray

/-- One round, with its constant and its schedule word. -/
def round (s : State) (constant word : UInt32) : State :=
  let s1 := rotateRight s.e 6 ^^^ rotateRight s.e 11 ^^^ rotateRight s.e 25
  let choice := (s.e &&& s.f) ^^^ (~~~s.e &&& s.g)
  let t1 := s.h + s1 + choice + constant + word
  let s0 := rotateRight s.a 2 ^^^ rotateRight s.a 13 ^^^ rotateRight s.a 22
  let majority := (s.a &&& s.b) ^^^ (s.a &&& s.c) ^^^ (s.b &&& s.c)
  ⟨t1 + (s0 + majority), s.a, s.b, s.c, s.d + t1, s.e, s.f, s.g⟩

/-- The rounds with the given constants, the first of which is the one at `index`. -/
def rounds (words : Array UInt32) (index : Nat) (s : State) : List UInt32 → State
  | [] => s
  | constant :: rest => rounds words (index + 1) (round s constant (words.getD index 0)) rest

/-- Mixes one block of sixteen words into the state. -/
def compress (s : State) (block : List UInt32) : State :=
  let t := rounds (schedule block) 0 s roundConstants
  ⟨s.a + t.a, s.b + t.b, s.c + t.c, s.d + t.d, s.e + t.e, s.f + t.f, s.g + t.g, s.h + t.h⟩

/-- The bytes of the state. -/
def State.bytes (s : State) : List UInt8 :=
  bytesOfWord s.a ++ bytesOfWord s.b ++ bytesOfWord s.c ++ bytesOfWord s.d
    ++ bytesOfWord s.e ++ bytesOfWord s.f ++ bytesOfWord s.g ++ bytesOfWord s.h

/-- Mixes a number of blocks of sixty-four bytes into the state. -/
def absorb (s : State) : Nat → List UInt8 → State
  | 0, _ => s
  | n + 1, bytes => absorb (compress s (wordsOfBytes (bytes.take 64))) n (bytes.drop 64)

/-- The SHA-256 digest of a message: its whole blocks, and then what is left with the padding after it. -/
def digest (message : List UInt8) : List UInt8 :=
  -- only the blocks at the end are put together anew, so that long messages are not copied
  let whole := message.length / 64
  let last := message.drop (64 * whole) ++ padding message.length
  (absorb (absorb initial whole message) (last.length / 64) last).bytes

@[simp] theorem length_bytes (s : State) : s.bytes.length = 32 := rfl

@[simp] theorem length_digest (message : List UInt8) : (digest message).length = 32 := rfl

end Sha256

end BoundedVm
