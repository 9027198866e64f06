import BoundedVm.Ledger.Snapshot
import BoundedVm.Ledger.Witness

/-! # Verifiable objects

A verifiable object has an unsigned form, which is everything but its witnesses and which its identity
is the hash of, and it names the accounts that must agree to it. `Verifiable.verify` checks that each
witness is bound to its account: a verification script must hash to the account, and a witness without
one needs a contract deployed there. Whether the scripts succeed is decided elsewhere. -/

namespace BoundedVm

/-- Objects that are named by the hash of their unsigned form and agreed to by witnesses. -/
class Verifiable (α : Type) where
  /-- The bytes of everything but the witnesses. -/
  encodeUnsigned : α → List UInt8
  /-- Reads the unsigned form; the object read has no witnesses. -/
  readUnsigned : Reader α
  witnesses : α → List Witness
  withWitnesses : List Witness → α → α
  /-- The number of witnesses in the byte form of an object. -/
  witnessCount : α → Nat
  /-- The accounts that must agree to an object, in the order of the witnesses. -/
  accounts : Snapshot → α → Except PayloadFault (List Account)

/-- Reads an unsigned form and the witness section after it. -/
def readSigned {α : Type} (readUnsigned : Reader α) (witnessCount : α → Nat)
    (withWitnesses : List Witness → α → α) : Reader α := do
  let x ← readUnsigned
  let ws ← Witness.readSection (witnessCount x)
  pure (withWitnesses ws x)

/-- Whether a witness is bound to an account, the witness standing at `index`. -/
def Witness.checkBinding (snapshot : Snapshot) (index : Nat) (expected : Account) (w : Witness) :
    Except PayloadFault Unit :=
  if w.verification = [] then
    -- whether the contract agrees is not decided here, only that there is one
    if snapshot.contains (contractKey expected) then .ok ()
    else .error (.contractNotFound expected)
  else if w.account = expected then .ok ()
  else .error (.witnessScriptMismatch index expected w.account)

/-- Checks the witnesses against the accounts in order, the first ones standing at `index`. -/
def checkBindings (snapshot : Snapshot) (index : Nat) :
    List Account → List Witness → Except PayloadFault Unit
  | account :: accounts, w :: ws =>
    match w.checkBinding snapshot index account with
    | .ok () => checkBindings snapshot (index + 1) accounts ws
    | .error e => .error e
  | _, _ => .ok ()

namespace Verifiable

variable {α : Type} [Verifiable α]

/-- The bytes of an object. -/
def encode (x : α) : List UInt8 :=
  encodeUnsigned x ++ Witness.encodeSection (witnesses x)

/-- Reads an object. -/
def read : Reader α :=
  readSigned readUnsigned witnessCount withWitnesses

/-- The object that spans all of the given bytes. -/
def ofBytes (input : List UInt8) : Except PayloadFault α :=
  Reader.decode read input

/-- The identity of an object. -/
def id (x : α) : ObjectId :=
  .sha256 (encodeUnsigned x)

/-- Checks that there is one witness for each account and that it is bound to it. -/
def verify (snapshot : Snapshot) (x : α) : Except PayloadFault Unit :=
  match accounts snapshot x with
  | .error e => .error e
  | .ok expected =>
    let ws := witnesses x
    if expected.length ≠ ws.length then .error (.witnessCountMismatch expected.length ws.length)
    else checkBindings snapshot 0 expected ws

end Verifiable

end BoundedVm
