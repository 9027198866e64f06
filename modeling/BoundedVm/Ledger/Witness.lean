import BoundedVm.Wire.Reader
import BoundedVm.Wire.Writer

/-! # Witnesses

A witness holds a verification script, which controls the account it speaks for, and an invocation
script with the arguments of the verification. An empty verification script stands for the contract
deployed at the account. The witness section of an object is the list of its witnesses. -/

namespace BoundedVm

/-- The proof that an account agrees to an object. -/
structure Witness where
  /-- The arguments of the verification. -/
  invocation : List UInt8 := []
  /-- The script that is verified; empty for a deployed contract. -/
  verification : List UInt8 := []
  deriving DecidableEq

namespace Witness

/-- The most bytes a script of a witness may have. -/
def maxScript : Nat := 1024

/-- The account that the verification script controls. -/
def account (w : Witness) : Account := .ofScript w.verification

/-- The bytes of a witness. -/
def encode (w : Witness) : List UInt8 :=
  Wire.varBytes w.invocation ++ Wire.varBytes w.verification

/-- Reads a witness. -/
def read : Reader Witness := do
  let invocation ← Reader.varBytes maxScript
  let verification ← Reader.varBytes maxScript
  pure { invocation, verification }

/-- The bytes of a witness section. -/
def encodeSection (ws : List Witness) : List UInt8 :=
  Wire.array encode ws

/-- Reads a witness section that holds exactly `count` witnesses. -/
def readSection (count : Nat) : Reader (List Witness) := do
  let ws ← Reader.array count read
  if ws.length = count then pure ws
  else throw (.witnessCountMismatch count ws.length)

end Witness

end BoundedVm
