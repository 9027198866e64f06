import BoundedVm.Ledger.Verifiable

/-! # Endorsements

An endorsement is a body of bytes with the list of the accounts that must agree to it, one witness for
each. -/

namespace BoundedVm

/-- A body of bytes that any number of accounts agree to. -/
structure Endorsement where
  body : List UInt8 := []
  accounts : List Account := []
  witnesses : List Witness := []
  deriving DecidableEq

namespace Endorsement

/-- The most bytes a body may have. -/
def maxBody : Nat := 64

/-- The most accounts there may be. -/
def maxAccounts : Nat := 16

/-- The bytes of everything but the witnesses. -/
def encodeUnsigned (e : Endorsement) : List UInt8 :=
  Wire.varBytes e.body ++ Wire.array Digest.bytes e.accounts

/-- Reads everything but the witnesses. -/
def readUnsigned : Reader Endorsement := do
  let body ← Reader.varBytes maxBody
  let accounts ← Reader.array maxAccounts (Reader.digest 20)
  pure { body, accounts }

instance : Verifiable Endorsement where
  encodeUnsigned := encodeUnsigned
  readUnsigned := readUnsigned
  witnesses := witnesses
  withWitnesses ws e := { e with witnesses := ws }
  witnessCount e := e.accounts.length
  accounts _ e := .ok e.accounts

end Endorsement

end BoundedVm
