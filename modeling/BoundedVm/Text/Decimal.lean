/-! # Decimal text

Reading of unsigned decimal numbers with an upper bound, as environment variables and command-line
options hold them, and the aligned forms in which a signed number is printed. -/

namespace BoundedVm

namespace Decimal

/-- The value of an ASCII decimal digit. -/
def digit? (c : Char) : Option Nat :=
  if '0' ≤ c ∧ c ≤ '9' then some (c.toNat - '0'.toNat) else none

/-- Continues the number `acc` with further digits; any other character refuses the text. -/
def readDigits (acc : Nat) : List Char → Option Nat
  | [] => some acc
  | c :: rest => (digit? c).bind fun d => readDigits (10 * acc + d) rest

/-- The number written by one or more decimal digits. -/
def readNat? : List Char → Option Nat
  | [] => none
  | text => readDigits 0 text

/-- The number below `bound` written by decimal digits after at most one plus sign. -/
def readBelow? (bound : Nat) (text : List Char) : Option Nat :=
  let digits := match text with
    | '+' :: rest => rest
    | _ => text
  (readNat? digits).filter (· < bound)

/-! ## Aligned output -/

/-- The number with its sign always written. -/
def signed (v : Int) : String :=
  if v < 0 then toString v else "+" ++ toString v

/-- The text moved to the right end of a field of the given width by spaces. -/
def alignRight (width : Nat) (text : String) : String :=
  String.ofList (List.replicate (width - text.length) ' ') ++ text

/-- The text at the left end of a field of the given width, filled by spaces. -/
def alignLeft (width : Nat) (text : String) : String :=
  text ++ String.ofList (List.replicate (width - text.length) ' ')

/-- The number filled to the given width by zeros, which stand between the sign and the digits. -/
def zeroFilled (width : Nat) (v : Int) : String :=
  let sign := if v < 0 then "-" else ""
  let digits := toString v.natAbs
  sign ++ String.ofList (List.replicate (width - sign.length - digits.length) '0') ++ digits

end Decimal

end BoundedVm
