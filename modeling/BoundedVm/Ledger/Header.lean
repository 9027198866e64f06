import BoundedVm.Ledger.Verifiable

/-! # Block headers

A header names the block before it and the account that must agree to the block after it. The account
of a header is found in the header before it, which the snapshot keeps; the first header of a chain has
none before it and names its account itself, by its own verification script. -/

namespace BoundedVm

/-- The header of a block. -/
structure Header where
  version : UInt32 := 0
  /-- The block before this one, zero for the first block. -/
  previous : ObjectId := .zero
  merkleRoot : ObjectId := .zero
  timestamp : UInt64 := 0
  nonce : UInt64 := 0
  index : UInt32 := 0
  primaryIndex : UInt8 := 0
  /-- The account that must agree to the next block. -/
  nextConsensus : Account := .zero
  witnesses : List Witness := []
  deriving DecidableEq

namespace Header

/-- Whether a header is the first of a chain. -/
def isGenesis (h : Header) : Bool := h.previous.isZero

/-- The bytes of everything but the witnesses. -/
def encodeUnsigned (h : Header) : List UInt8 :=
  Wire.u32 h.version ++ h.previous.bytes ++ h.merkleRoot.bytes ++ Wire.u64 h.timestamp
    ++ Wire.u64 h.nonce ++ Wire.u32 h.index ++ [h.primaryIndex] ++ h.nextConsensus.bytes

/-- Reads everything but the witnesses; only version 0 is known. -/
def readUnsigned : Reader Header := do
  let version ← Reader.u32
  if version > 0 then throw (.invalidFormat (.headerVersion version))
  let previous ← Reader.digest 32
  let merkleRoot ← Reader.digest 32
  let timestamp ← Reader.u64
  let nonce ← Reader.u64
  let index ← Reader.u32
  let primaryIndex ← Reader.u8
  let nextConsensus ← Reader.digest 20
  pure { version, previous, merkleRoot, timestamp, nonce, index, primaryIndex, nextConsensus }

/-- Reads a header with its witness. -/
def read : Reader Header :=
  readSigned readUnsigned (fun _ => 1) fun ws h => { h with witnesses := ws }

/-- The accounts that must agree to a header: for the first of a chain the one of its own witness, for
any other the one named by the header before it. -/
def accounts (snapshot : Snapshot) (h : Header) : Except PayloadFault (List Account) :=
  if h.isGenesis then
    -- no block before it can name the account
    match h.witnesses with
    | w :: _ => .ok [w.account]
    | [] => .error (.invalidFormat .unsignedGenesis)
  else
    match snapshot.get? (blockKey h.previous) with
    | none => .error (.unknownPreviousBlock h.previous)
    | some stored => (Reader.decode read stored).map fun previous => [previous.nextConsensus]

instance : Verifiable Header where
  encodeUnsigned := encodeUnsigned
  readUnsigned := readUnsigned
  witnesses := witnesses
  withWitnesses ws h := { h with witnesses := ws }
  witnessCount _ := 1
  accounts := accounts

end Header

end BoundedVm
