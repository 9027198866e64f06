/-! # Quoted Latin-1 characters

The quoted form of one byte taken as a Latin-1 character: printable characters stand for themselves,
the usual controls, the single quote and the backslash have two-character escapes, and every other
character is written by its code point. -/

namespace BoundedVm

/-- The lower-case hexadecimal digits of a number, without leading zeros. -/
def hexNumber (n : Nat) : String :=
  String.ofList (Nat.toDigits 16 n)

/-- Whether a Latin-1 character is printed as it is: neither a control nor the no-break space nor the
soft hyphen. -/
def isPrintableLatin (b : UInt8) : Bool :=
  (0x20 ≤ b && b < 0x7F) || (0xA1 ≤ b && b != 0xAD)

/-- What stands between the quotes for a Latin-1 character. -/
def escapeLatin (b : UInt8) : String :=
  if b = 0 then "\\0"
  else if b = 9 then "\\t"
  else if b = 10 then "\\n"
  else if b = 13 then "\\r"
  else if b = 0x27 then "\\'"
  else if b = 0x5C then "\\\\"
  else if isPrintableLatin b then String.singleton (Char.ofNat b.toNat)
  else "\\u\x7b" ++ hexNumber b.toNat ++ "\x7d"

/-- The quoted form of a byte taken as a Latin-1 character. -/
def quoteLatin (b : UInt8) : String :=
  "'" ++ escapeLatin b ++ "'"

end BoundedVm
