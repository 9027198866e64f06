import BoundedVm.Ledger.Extensible

/-! # Inventory types

The one-byte tags under which objects are relayed. -/

namespace BoundedVm

/-- The types of objects that are relayed. -/
inductive InventoryType where
  | transaction
  | block
  | extensible
  deriving DecidableEq

namespace InventoryType

/-- The one-byte tag of a type. -/
def tag : InventoryType → UInt8
  | transaction => 0x2b
  | block => 0x2c
  | extensible => 0x2e

/-- The name of a type. -/
def name : InventoryType → String
  | transaction => "Transaction"
  | block => "Block"
  | extensible => "Extensible"

/-- The type with a tag. -/
def ofTag (b : UInt8) : Except PayloadFault InventoryType :=
  if b = 0x2b then .ok transaction
  else if b = 0x2c then .ok block
  else if b = 0x2e then .ok extensible
  else .error (.invalidFormat (.unknownInventory b))

end InventoryType

/-- The type under which an extensible payload is relayed. -/
def ExtensiblePayload.inventoryType (_ : ExtensiblePayload) : InventoryType := .extensible

end BoundedVm
