import BoundedVm.Value.Integer
import BoundedVm.Value.Limits

/-! # Items

An `Item` is a handle to a value. Integers and byte strings carry the number of their allocation beside
their content, containers are named by a `ContainerId`, and a pointer is a position in a numbered
script. Two items are the same reference exactly when they are equal as items: `null`, truth values and
pointers by what they are, integers and byte strings by their allocation, containers by their name.
`Item.leafEquals` compares the visible content of everything but structs. -/

namespace BoundedVm

/-- The number of a container, in the order of creation. -/
abbrev ContainerId := Nat

/-- The number of a tracker, in the order of creation. -/
abbrev TrackerId := Nat

/-- A handle to a value. -/
inductive Item where
  | null
  | boolean (b : Bool)
  | integer (allocation : Nat) (value : Integer)
  | bytes (allocation : Nat) (content : List UInt8)
  | pointer (script position : Nat)
  | array (container : ContainerId)
  | struct (container : ContainerId)

/-- The two kinds of containers. -/
inductive Compound where
  | array
  | struct
  deriving DecidableEq

namespace Compound

/-- The handle to a container of this kind. -/
def item : Compound → ContainerId → Item
  | array, c => .array c
  | struct, c => .struct c

end Compound

/-- The truth value of a byte string: whether some byte is not zero. It is defined up to the length of
an integer only. -/
def bytesToBool (content : List UInt8) : Except ValueFault Bool :=
  if content.length > maxIntegerSize then .error (.noConversion .byteString .boolean)
  else .ok (content.any (· != 0))

namespace Item

instance : Inhabited Item := ⟨null⟩

/-- Whether two items are the same reference. The content of byte strings is looked at only if they
share an allocation, and in a loop, so that long ones can be told apart. -/
def same : Item → Item → Bool
  | null, null => true
  | boolean a, boolean b => a == b
  | integer a i, integer b j => a == b && i == j
  | bytes a x, bytes b y => a == b && x == y
  | pointer s p, pointer t q => s == t && p == q
  | array a, array b | struct a, struct b => a == b
  | _, _ => false

theorem same_iff {x y : Item} : x.same y = true ↔ x = y := by
  cases x <;> cases y <;> simp [same]

instance : DecidableEq Item := fun _ _ => decidable_of_iff _ same_iff

/-- The kind of an item. -/
def kind : Item → Kind
  | null => .any
  | boolean _ => .boolean
  | integer _ _ => .integer
  | bytes _ _ => .byteString
  | pointer _ _ => .pointer
  | array _ => .array
  | struct _ => .struct

/-- The container that an item is a handle to. -/
def container? : Item → Option ContainerId
  | array c | struct c => some c
  | _ => none

/-- Whether an item is a handle to a struct. -/
def isStruct : Item → Bool
  | struct _ => true
  | _ => false

theorem isStruct_iff {x : Item} : x.isStruct = true ↔ ∃ s, x = .struct s := by
  cases x <;> simp [isStruct]

theorem isStruct_eq_false_iff {x : Item} : x.isStruct = false ↔ ∀ s, x ≠ .struct s := by
  cases x <;> simp [isStruct]

/-- The number of an item that is an integer. -/
def number? : Item → Option Int
  | integer _ i => some i.value
  | _ => none

/-- The truth value of an item. -/
def toBool : Item → Except ValueFault Bool
  | null => .ok false
  | boolean b => .ok b
  | integer _ i => .ok i.toBool
  | bytes _ content => bytesToBool content
  | pointer _ _ | array _ | struct _ => .ok true

/-- The integer that an item stands for. -/
def toInteger : Item → Except ValueFault Integer
  | integer _ i => .ok i
  | boolean b => .ok (.ofBool b)
  | bytes _ content => Integer.ofBytes content
  | x => .error (.noConversion x.kind .integer)

/-! ## Comparison of leaves -/

/-- Whether two byte strings have the same content. One allocation equals itself; of two, neither may
be longer than the comparable size. -/
def bytesEqual (limits : Limits) (a : Nat) (x : List UInt8) (b : Nat) (y : List UInt8) :
    Except ValueFault Bool :=
  let max := limits.maxComparableSize.toNat
  if bytes a x = bytes b y then .ok true
  else if x.length > max ∨ y.length > max then
    .error (.incomparableBytes (Nat.max x.length y.length) max)
  else .ok (x == y)

/-- Whether two items other than structs have the same visible content; arrays are told apart by
identity, and items of different kinds differ. A struct on either side is refused. -/
def leafEquals (limits : Limits) : Item → Item → Except ValueFault Bool
  | null, null => .ok true
  | boolean a, boolean b => .ok (a = b)
  | integer _ i, integer _ j => .ok (i.value = j.value)
  | bytes a x, bytes b y => bytesEqual limits a x b y
  | pointer s p, pointer t q => .ok (s = t ∧ p = q)
  | array a, array b => .ok (a = b)
  | struct _, _ | _, struct _ => .error .unboundedStructEquality
  | _, _ => .ok false

/-- Equality without a walk: a struct on either side is refused, and byte strings are compared under
the standard limits. -/
def tryEquals (a b : Item) : Except ValueFault Bool :=
  if a.isStruct then .error .unboundedStructEquality else leafEquals .standard a b

end Item

end BoundedVm
