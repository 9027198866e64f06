import BoundedVm.Bytes.Chunks

/-! # Words of 32 bits

What the two hash functions share: the turning of a word. -/

namespace BoundedVm

/-- The word turned right by a number of bits from 1 to 31. -/
def rotateRight (x n : UInt32) : UInt32 :=
  (x >>> n) ||| (x <<< (32 - n))

end BoundedVm
