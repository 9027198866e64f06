import BoundedVm.Ledger.Verifiable

/-! # Extensible payloads

An extensible payload carries data of an application under a category, for a window of blocks, and is
agreed to by its sender alone. -/

namespace BoundedVm

/-- Data of an application that is relayed with one witness. -/
structure ExtensiblePayload where
  category : String := ""
  /-- The first block of the window. -/
  validFrom : UInt32 := 0
  /-- The first block after the window. -/
  validUntil : UInt32 := 0
  sender : Account := .zero
  data : List UInt8 := []
  witnesses : List Witness := []
  deriving DecidableEq

namespace ExtensiblePayload

/-- The most bytes a category may have. -/
def maxCategory : Nat := 32

/-- The most bytes the data may have. -/
def maxData : Nat := 0x1000000

/-- The bytes of everything but the witnesses. -/
def encodeUnsigned (p : ExtensiblePayload) : List UInt8 :=
  Wire.varString p.category ++ Wire.u32 p.validFrom ++ Wire.u32 p.validUntil ++ p.sender.bytes
    ++ Wire.varBytes p.data

/-- Reads everything but the witnesses; the window must hold a block. -/
def readUnsigned : Reader ExtensiblePayload := do
  let category ← Reader.varString maxCategory
  let validFrom ← Reader.u32
  let validUntil ← Reader.u32
  if validFrom ≥ validUntil then throw (.invalidFormat (.emptyWindow validFrom validUntil))
  let sender ← Reader.digest 20
  let data ← Reader.varBytes maxData
  pure { category, validFrom, validUntil, sender, data }

instance : Verifiable ExtensiblePayload where
  encodeUnsigned := encodeUnsigned
  readUnsigned := readUnsigned
  witnesses := witnesses
  withWitnesses ws p := { p with witnesses := ws }
  witnessCount _ := 1
  accounts _ p := .ok [p.sender]

end ExtensiblePayload

end BoundedVm
