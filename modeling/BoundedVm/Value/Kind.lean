import BoundedVm.Json.Parse

/-! # Kinds of values

Every value of the machine has a kind, and every kind a one-byte tag and a name. `Kind.ofTag?` reads a
tag, and `Kind.ofJson?` a JSON document that names a kind, as a text or as an object with that name as
its only key and a null below it. -/

namespace BoundedVm

/-- The kind of a value. -/
inductive Kind where
  | any
  | pointer
  | boolean
  | integer
  | byteString
  | array
  | struct
  deriving DecidableEq

namespace Kind

/-- All kinds, in the order of their tags. -/
def all : List Kind := [any, pointer, boolean, integer, byteString, array, struct]

/-- The one-byte tag of a kind. -/
def tag : Kind → UInt8
  | any => 0x00
  | pointer => 0x10
  | boolean => 0x20
  | integer => 0x21
  | byteString => 0x28
  | array => 0x40
  | struct => 0x41

/-- The name of a kind. -/
def name : Kind → String
  | any => "Any"
  | pointer => "Pointer"
  | boolean => "Boolean"
  | integer => "Integer"
  | byteString => "ByteString"
  | array => "Array"
  | struct => "Struct"

/-- The kind with a tag. -/
def ofTag? (b : UInt8) : Option Kind :=
  all.find? (·.tag = b)

/-- The kind with a name. -/
def ofName? (s : String) : Option Kind :=
  all.find? (·.name = s)

/-- Whether values of the kind are containers. -/
def isCompound : Kind → Bool
  | array | struct => true
  | _ => false

/-- The JSON text of a kind: its name in quotes. -/
def json (k : Kind) : String :=
  "\"" ++ k.name ++ "\""

/-- The kind that a JSON text names. -/
def ofJson? (source : String) : Option Kind :=
  match JsonValue.parse? source with
  | some (.text (some name)) => ofName? name
  | some (.object [(some name, .null)]) => ofName? name
  | _ => none

@[simp] theorem ofTag?_tag (k : Kind) : ofTag? k.tag = some k := by
  cases k <;> rfl

end Kind

end BoundedVm
