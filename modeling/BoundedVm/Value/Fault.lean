import BoundedVm.Value.Kind

/-! # Faults of the value model

Each reason for which an operation on values is refused, and its wording. The faults of class
`isResourceLimit` come from a budget, a tracker or the comparable size. -/

namespace BoundedVm

/-- Why execution limits are refused. -/
inductive LimitsFault where
  | zeroStackSize
  | zeroComparableSize
  /-- The text is not a JSON record of limits. -/
  | badJson
  /-- The setting of the stack size is not a number of 32 bits. -/
  | stackSizeText (setting : String)
  /-- The setting of the comparable size is not a number of 32 bits. -/
  | comparableSizeText (setting : String)
  deriving DecidableEq

/-- Why an operation on values is refused. -/
inductive ValueFault where
  /-- An integer needs, or a byte string has, more bytes than an integer may have. -/
  | integerTooLong (size : Nat)
  /-- A tracker has no room for another container. -/
  | tooManyContainers (limit : Nat)
  /-- A struct has too many elements to clone. -/
  | cloneTooLarge
  /-- Two structs have too many elements to compare. -/
  | comparisonTooLarge
  /-- A byte string is too long to be compared. -/
  | incomparableBytes (length max : Nat)
  /-- A struct was compared without limits. -/
  | unboundedStructEquality
  | noConversion (source target : Kind)
  | indexOutOfRange (index length : Nat)
  | badLimits (fault : LimitsFault)
  deriving DecidableEq

/-- The most bytes an integer may have. -/
def maxIntegerSize : Nat := 32

namespace LimitsFault

/-- The wording of a refusal of limits. -/
def message : LimitsFault → String
  | zeroStackSize => "max_stack_size must be at least 1"
  | zeroComparableSize => "max_comparable_size must be at least 1"
  | badJson => "json"
  | stackSizeText setting => "VM_MAX_STACK_SIZE: '" ++ setting ++ "'"
  | comparableSizeText setting => "VM_MAX_COMPARABLE_SIZE: '" ++ setting ++ "'"

end LimitsFault

namespace ValueFault

/-- Whether a fault comes from a budget, a tracker or the comparable size. -/
def isResourceLimit : ValueFault → Bool
  | tooManyContainers _ | cloneTooLarge | comparisonTooLarge | incomparableBytes _ _ => true
  | _ => false

/-- The wording of a fault. -/
def message : ValueFault → String
  | integerTooLong size =>
    s!"construction: integer of {size} bytes exceeds the {maxIntegerSize}-byte limit"
  | tooManyContainers limit =>
    s!"resource limit exceeded: more than {limit} live compound values"
  | cloneTooLarge => "resource limit exceeded: struct clone exceeds max_stack_size"
  | comparisonTooLarge => "resource limit exceeded: too many struct items to compare"
  | incomparableBytes length max =>
    s!"resource limit exceeded: byte string of {length} bytes exceeds comparable size {max}"
  | unboundedStructEquality =>
    "unsupported operation: struct equality requires a bounded comparison"
  | noConversion source target =>
    "type mismatch: cannot convert " ++ source.name ++ " to " ++ target.name
  | indexOutOfRange index length => s!"index {index} out of range for container of {length}"
  | badLimits fault => "invalid limits: " ++ fault.message

end ValueFault

end BoundedVm
