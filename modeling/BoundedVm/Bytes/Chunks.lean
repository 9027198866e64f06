/-! # Pieces of equal length

`chunks n xs` cuts a list into consecutive pieces of `n` elements, the last of which may be shorter. -/

namespace BoundedVm

variable {α : Type}

/-- The list cut into pieces of `n` elements; an empty list has no piece. -/
def chunks (n : Nat) (xs : List α) : List (List α) :=
  if xs = [] ∨ n = 0 then [] else xs.take n :: chunks n (xs.drop n)
termination_by xs.length
decreasing_by
  rename_i h
  have hx : xs.length ≠ 0 := fun e => h (.inl (List.length_eq_zero_iff.mp e))
  have hn : n ≠ 0 := fun e => h (.inr e)
  simp only [List.length_drop]
  omega

@[simp] theorem chunks_nil (n : Nat) : chunks n ([] : List α) = [] := by
  rw [chunks]
  simp

end BoundedVm
