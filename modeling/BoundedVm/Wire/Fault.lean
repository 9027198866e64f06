import BoundedVm.Digest.Basic

/-! # Faults of payloads

Each reason for which bytes are not an object, an object is not bound to its accounts, or a snapshot is
not loaded, and its wording. `isMalformed` are the faults of the input itself; the others refuse an
object that was read. -/

namespace BoundedVm

/-- Why bytes of the right length are not a value. -/
inductive FormatFault where
  | badBool (byte : UInt8)
  | varIntOverflow
  | notUtf8
  | unknownInventory (tag : UInt8)
  | emptyWindow (first last : UInt32)
  | headerVersion (version : UInt32)
  | unsignedGenesis
  deriving DecidableEq

/-- Why a payload is refused. -/
inductive PayloadFault where
  | unexpectedEnd (needed remaining : Nat)
  | nonCanonicalVarInt
  | lengthExceeded (length max : Nat)
  | trailingBytes (count : Nat)
  | invalidFormat (fault : FormatFault)
  | unknownPreviousBlock (block : ObjectId)
  | witnessCountMismatch (expected actual : Nat)
  | witnessScriptMismatch (index : Nat) (expected actual : Account)
  | contractNotFound (account : Account)
  | hex (fault : HexFault)
  /-- The text is not a JSON record of the expected form. -/
  | badJson
  deriving DecidableEq

/-- A byte as `0x` and two hexadecimal digits. -/
def hexByte (b : UInt8) : String :=
  "0x" ++ Hex.text [b]

namespace FormatFault

/-- The wording of a fault of format. -/
def message : FormatFault → String
  | badBool byte => "invalid bool byte " ++ hexByte byte
  | varIntOverflow => "var-int overflows u64"
  | notUtf8 => "string is not valid utf-8"
  | unknownInventory tag => "unknown inventory type " ++ hexByte tag
  | emptyWindow first last => s!"empty validity window {first}..{last}"
  | headerVersion version => s!"unsupported header version {version}"
  | unsignedGenesis => "genesis header without witness"

end FormatFault

namespace PayloadFault

/-- Whether the fault lies in the input itself. -/
def isMalformed : PayloadFault → Bool
  | unexpectedEnd _ _ | nonCanonicalVarInt | lengthExceeded _ _ | trailingBytes _
  | invalidFormat _ | hex _ | badJson => true
  | _ => false

/-- The wording of a fault. -/
def message : PayloadFault → String
  | unexpectedEnd needed remaining =>
    s!"unexpected end of input: needed {needed} bytes, {remaining} left"
  | nonCanonicalVarInt => "var-int is not minimally encoded"
  | lengthExceeded length max => s!"length {length} exceeds maximum {max}"
  | trailingBytes count => s!"{count} trailing bytes after object"
  | invalidFormat fault => "invalid format: " ++ fault.message
  | unknownPreviousBlock block => "previous block " ++ block.text ++ " not found in snapshot"
  | witnessCountMismatch expected actual =>
    s!"witness count mismatch: expected {expected}, got {actual}"
  | witnessScriptMismatch index expected actual =>
    s!"witness {index} verifies " ++ actual.text ++ ", expected " ++ expected.text
  | contractNotFound account => "contract " ++ account.text ++ " not found in snapshot"
  | hex fault => "hex: " ++ fault.message
  | badJson => "serde-json"

end PayloadFault

end BoundedVm
