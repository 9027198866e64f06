import BoundedVm.Text.Blank
import BoundedVm.Text.Decimal
import BoundedVm.Value.Fault

/-! # Execution limits

The two limits of an execution: one bounds the live containers as well as the work of one clone or
comparison, the other the byte strings that may be compared. Limits are read from a JSON record or
from environment variables; both take the defaults for what is absent and refuse a zero. -/

namespace BoundedVm

/-- The limits of an execution. -/
structure Limits where
  /-- Bounds the live containers and the work of one clone or comparison. -/
  maxStackSize : UInt32 := 2048
  /-- The length of the longest byte string that may be compared. -/
  maxComparableSize : UInt32 := 65536
  deriving DecidableEq

namespace Limits

/-- The limits that hold when none are given. -/
def standard : Limits := {}

/-- Refuses limits of zero, the stack size first. -/
def validate (l : Limits) : Except ValueFault Limits :=
  if l.maxStackSize = 0 then .error (.badLimits .zeroStackSize)
  else if l.maxComparableSize = 0 then .error (.badLimits .zeroComparableSize)
  else .ok l

/-! ## JSON -/

/-- The JSON text of limits on one line. -/
def json (l : Limits) : String :=
  "\x7b\"max_stack_size\":" ++ toString l.maxStackSize
    ++ ",\"max_comparable_size\":" ++ toString l.maxComparableSize ++ "\x7d"

/-- The JSON text of limits with one line for each. -/
def prettyJson (l : Limits) : String :=
  "\x7b\n  \"max_stack_size\": " ++ toString l.maxStackSize
    ++ ",\n  \"max_comparable_size\": " ++ toString l.maxComparableSize ++ "\n\x7d"

/-- One limit of a JSON record; an absent one takes its default. -/
def field? (default : UInt32) : Option JsonValue → Option UInt32
  | none => some default
  | some value => (value.integerIn? 0 UInt32.size).map fun v => UInt32.ofNat v.toNat

/-- The limits that a JSON document holds, not validated yet. -/
def ofJsonValue? (value : JsonValue) : Option Limits :=
  match value.record? ["max_stack_size", "max_comparable_size"] true with
  | some [stack, comparable] =>
    match field? standard.maxStackSize stack, field? standard.maxComparableSize comparable with
    | some s, some c => some ⟨s, c⟩
    | _, _ => none
  | _ => none

/-- The limits that a JSON text holds. -/
def ofJson (source : String) : Except ValueFault Limits :=
  match (JsonValue.parse? source).bind ofJsonValue? with
  | some l => l.validate
  | none => .error (.badLimits .badJson)

/-! ## Environment -/

/-- The number of 32 bits that a setting holds between blanks. -/
def setting? (text : String) : Option UInt32 :=
  (Decimal.readBelow? UInt32.size (trim text.toList)).map UInt32.ofNat

/-- One limit from its setting, with the fault for a setting that is no number of 32 bits; without a
setting it takes its default. -/
def ofSetting (default : UInt32) (fault : String → LimitsFault) :
    Option String → Except ValueFault UInt32
  | none => .ok default
  | some text =>
    match setting? text with
    | some n => .ok n
    | none => .error (.badLimits (fault text))

/-- The limits set by environment variables: a malformed stack size is reported before a malformed
comparable size, and both before a zero. -/
def ofEnvironment (lookup : String → Option String) : Except ValueFault Limits := do
  let stack ← ofSetting standard.maxStackSize .stackSizeText (lookup "VM_MAX_STACK_SIZE")
  let comparable ← ofSetting standard.maxComparableSize .comparableSizeText
    (lookup "VM_MAX_COMPARABLE_SIZE")
  validate ⟨stack, comparable⟩

end Limits

end BoundedVm
