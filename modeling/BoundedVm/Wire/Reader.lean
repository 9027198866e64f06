import BoundedVm.Bytes.Leb128
import BoundedVm.Bytes.LittleEndian
import BoundedVm.Wire.Fault

/-! # Reading values from bytes

A `Reader` takes a value off the front of the bytes that remain. After a fault the bytes that remain
are those in front of which reading stopped: a value of fixed width or a var-int that is refused leaves
them untouched, while a byte string that is refused for its content has been taken off. -/

namespace BoundedVm

/-- A computation that takes a value off the front of the remaining bytes. -/
abbrev Reader (α : Type) := EStateM PayloadFault (List UInt8) α

namespace Reader

/-- Whether at least `n` bytes remain. It looks no further than that many bytes ahead, so that reading
many values takes time in proportion to what is read. -/
def hasBytes : Nat → List UInt8 → Bool
  | 0, _ => true
  | _ + 1, [] => false
  | n + 1, _ :: rest => hasBytes n rest

theorem hasBytes_iff {n : Nat} {input : List UInt8} :
    hasBytes n input = true ↔ n ≤ input.length := by
  fun_induction hasBytes n input with
  | case1 => simp
  | case2 => simp
  | case3 n _ rest ih => simp [ih]

/-- The next `n` bytes. -/
def bytes (n : Nat) : Reader (List UInt8) := fun input =>
  if hasBytes n input then .ok (input.take n) (input.drop n)
  else .error (.unexpectedEnd n input.length) input

/-- The end of the input. -/
def finish : Reader Unit := fun input =>
  if input = [] then .ok () [] else .error (.trailingBytes input.length) input

/-- A number of `width` bytes, lowest first. -/
def fixed (width : Nat) : Reader Nat := do
  pure (LittleEndian.decode (← bytes width))

/-- A number of one byte. -/
def u8 : Reader UInt8 := do pure (UInt8.ofNat (← fixed 1))

/-- A number of two bytes. -/
def u16 : Reader UInt16 := do pure (UInt16.ofNat (← fixed 2))

/-- A number of four bytes. -/
def u32 : Reader UInt32 := do pure (UInt32.ofNat (← fixed 4))

/-- A number of eight bytes. -/
def u64 : Reader UInt64 := do pure (UInt64.ofNat (← fixed 8))

/-- A truth value, which is the byte 0 or 1. -/
def bool : Reader Bool := do
  let b ← u8
  if b = 0 then pure false
  else if b = 1 then pure true
  else throw (.invalidFormat (.badBool b))

/-- A digest of `width` bytes. -/
def digest (width : Nat) : Reader (Digest width) := fun input =>
  if h : hasBytes width input then
    .ok ⟨input.take width, List.length_take_of_le (hasBytes_iff.1 h)⟩ (input.drop width)
  else .error (.unexpectedEnd width input.length) input

/-- A var-int not above `max`. The input must begin with the number's shortest form. -/
def varInt (max : Nat) : Reader Nat := fun input =>
  match Leb128.decode input with
  | .exhausted => .error (.unexpectedEnd (input.length + 1) input.length) input
  | .overflow => .error (.invalidFormat .varIntOverflow) input
  | .number v rest =>
    -- a number padded with zeros is refused before its size is looked at
    if (Leb128.encode v).isPrefixOf input then
      if v > max then .error (.lengthExceeded v max) input else .ok v rest
    else .error .nonCanonicalVarInt input

/-- A byte string of at most `max` bytes after its length. -/
def varBytes (max : Nat) : Reader (List UInt8) := do
  bytes (← varInt max)

/-- The text that some bytes write in UTF-8. -/
def decodeUtf8 (content : List UInt8) : Reader String :=
  match String.fromUTF8? ⟨content.toArray⟩ with
  | some s => pure s
  | none => throw (.invalidFormat .notUtf8)

/-- A text of at most `max` bytes after its length. -/
def varString (max : Nat) : Reader String := do
  decodeUtf8 (← varBytes max)

/-- A value `n` times. -/
def times {α : Type} (item : Reader α) : Nat → Reader (List α)
  | 0 => pure []
  | n + 1 => do
    let x ← item
    let xs ← times item n
    pure (x :: xs)

/-- A list of at most `max` values after their number. -/
def array {α : Type} (max : Nat) (item : Reader α) : Reader (List α) := do
  times item (← varInt max)

/-- The value that spans all of the given bytes. -/
def decode {α : Type} (r : Reader α) (input : List UInt8) : Except PayloadFault α :=
  match (do let x ← r; finish; pure x : Reader α) input with
  | .ok x _ => .ok x
  | .error e _ => .error e

end Reader

end BoundedVm
