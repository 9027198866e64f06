import BoundedVm.Proofs.Comparison.Pruning

/-! # Comparisons under raised limits

A verdict is reached before a limit is met, so that higher limits do not change it; only a refusal can
become a verdict. The budget decides how much of each struct is kept on the stacks, and two runs under
different limits hold different stacks at every turn. Nothing of this shows in the walk over pairs,
which keeps all that is pending: there the run under the higher limits makes the same turns.

* `pairStep_of_le`: what a turn does with one pair.
* `comparePairs_of_le`: a run that comes to a verdict.
* `equals_of_le`: the comparison of two items. -/

namespace BoundedVm

variable {limits raised : Limits}

namespace Item

/-- What is short enough to be compared is so under a higher limit. -/
theorem bytesEqual_of_le (hlength : limits.maxComparableSize ≤ raised.maxComparableSize)
    {m n : Nat} {x y : List UInt8} {v : Bool} (hv : bytesEqual limits m x n y = .ok v) :
    bytesEqual raised m x n y = .ok v := by
  have hle : limits.maxComparableSize.toNat ≤ raised.maxComparableSize.toNat :=
    UInt32.le_iff_toNat_le.mp hlength
  unfold bytesEqual at hv ⊢
  by_cases hsame : bytes m x = bytes n y
  · rwa [if_pos hsame] at hv ⊢
  · rw [if_neg hsame] at hv ⊢
    by_cases hlong : x.length > limits.maxComparableSize.toNat
        ∨ y.length > limits.maxComparableSize.toNat
    · rw [if_pos hlong] at hv
      cases hv
    · have hshort : ¬ (x.length > raised.maxComparableSize.toNat
          ∨ y.length > raised.maxComparableSize.toNat) := by omega
      rw [if_neg hlong] at hv
      rw [if_neg hshort]
      exact hv

/-- Only the comparison of byte strings looks at the limits. -/
theorem leafEquals_of_le (hlength : limits.maxComparableSize ≤ raised.maxComparableSize)
    {a b : Item} {v : Bool} (hv : a.leafEquals limits b = .ok v) :
    a.leafEquals raised b = .ok v := by
  cases a with
  | bytes m x =>
    cases b with
    | bytes n y => exact bytesEqual_of_le hlength hv
    | _ => exact hv
  | _ => cases b <;> exact hv

end Item

namespace Heap

variable {h : Heap}

/-- A turn that is not refused does the same under a higher limit. -/
theorem pairStep_of_le (hlength : limits.maxComparableSize ≤ raised.maxComparableSize)
    {a b : Item} (hstep : ∀ e, h.pairStep limits a b ≠ .refuse e) :
    h.pairStep raised a b = h.pairStep limits a b := by
  by_cases hkind : a.isStruct = b.isStruct
  · cases ha : a.isStruct with
    | false =>
      have hb : b.isStruct = false := hkind.symm.trans ha
      rw [pairStep_of_isStruct_eq_false h limits ha hb] at hstep ⊢
      rw [pairStep_of_isStruct_eq_false h raised ha hb]
      by_cases hab : a = b
      · rw [if_pos hab, if_pos hab]
      · rw [if_neg hab] at hstep
        rw [if_neg hab, if_neg hab]
        cases hv : a.leafEquals limits b with
        | error e =>
          rw [hv] at hstep
          exact absurd rfl (hstep e)
        | ok v => rw [Item.leafEquals_of_le hlength hv]
    | true =>
      obtain ⟨s, rfl⟩ := Item.isStruct_iff.1 ha
      obtain ⟨t, rfl⟩ := Item.isStruct_iff.1 (hkind.symm.trans ha)
      rw [pairStep_struct_struct, pairStep_struct_struct]
  · rw [pairStep_of_isStruct_ne h limits hkind, pairStep_of_isStruct_ne h raised hkind]

/-- **A run under raised limits.** A walk over pairs that comes to a verdict comes to it with any larger
budget and any higher limit on the length of byte strings. The induction is on the smaller budget; what
is left of the larger one is no smaller. -/
theorem comparePairs_of_le (hlength : limits.maxComparableSize ≤ raised.maxComparableSize)
    {budget larger : Nat} (hbudget : budget ≤ larger) {pending : List (Item × Item)} {v : Bool}
    (hv : h.comparePairs limits budget pending = .ok v) :
    h.comparePairs raised larger pending = .ok v := by
  induction budget generalizing larger pending with
  | zero =>
    cases pending with
    | nil => rwa [comparePairs_nil] at hv ⊢
    | cons p pending => cases hv
  | succ budget ih =>
    obtain ⟨larger, rfl⟩ := Nat.exists_eq_succ_of_ne_zero (Nat.ne_zero_of_lt hbudget)
    have hrest : budget ≤ larger := Nat.le_of_succ_le_succ hbudget
    cases pending with
    | nil => rwa [comparePairs_nil] at hv ⊢
    | cons p pending =>
      obtain ⟨a, b⟩ := p
      rw [comparePairs] at hv ⊢
      have hsame : h.pairStep raised a b = h.pairStep limits a b := by
        refine pairStep_of_le hlength fun e he => ?_
        rw [he] at hv
        cases hv
      rw [hsame]
      cases hstep : h.pairStep limits a b with
      | equal =>
        rw [hstep] at hv
        exact ih hrest hv
      | descend s t =>
        rw [hstep] at hv
        exact ih hrest hv
      | differ =>
        rw [hstep] at hv
        exact hv
      | refuse e =>
        rw [hstep] at hv
        cases hv

/-- **Raising limits never changes an answer.** On every heap a verdict on two items stays the same when
the stack size and the comparable size are raised. -/
theorem equals_of_le (hsize : limits.maxStackSize ≤ raised.maxStackSize)
    (hlength : limits.maxComparableSize ≤ raised.maxComparableSize) {a b : Item} {v : Bool}
    (hv : h.equals limits a b = .ok v) : h.equals raised a b = .ok v := by
  cases ha : a.isStruct with
  | false =>
    rw [equals_of_isStruct_eq_false h limits ha] at hv
    rw [equals_of_isStruct_eq_false h raised ha]
    by_cases hb : b.isStruct = true
    · rwa [if_pos hb] at hv ⊢
    · rw [if_neg hb] at hv ⊢
      exact Item.leafEquals_of_le hlength hv
  | true =>
    obtain ⟨s, rfl⟩ := Item.isStruct_iff.1 ha
    cases hb : b.isStruct with
    | false =>
      rw [equals_struct, compareStruct_of_isStruct_eq_false h _ s hb] at hv ⊢
      exact hv
    | true =>
      obtain ⟨t, rfl⟩ := Item.isStruct_iff.1 hb
      rw [equals_struct, compareStruct_struct] at hv ⊢
      exact comparePairs_of_le hlength (UInt32.le_iff_toNat_le.mp hsize) hv

/-- Two structs with the same content but for their last elements. -/
def lastApart : Heap :=
  ⟨#[some ⟨#[.struct 2, .bytes 0 [1, 2], .null, .null], 0, 1⟩,
      some ⟨#[.struct 3, .bytes 1 [1, 2], .null, .boolean true], 0, 1⟩,
      some ⟨#[.null], 0, 1⟩, some ⟨#[.null], 0, 1⟩],
    #[⟨4, 4, 4, #[0, 1, 2, 3]⟩], 2⟩

/-- A stack size of two is enough to tell the structs apart, with only two of their four elements kept;
under the raised limits all are kept, and the byte strings would be short enough to be compared. -/
theorem equals_of_le_lastApart :
    lastApart.equals ⟨2, 1⟩ (.struct 0) (.struct 1) = .ok false ∧
      lastApart.equals ⟨9, 2⟩ (.struct 0) (.struct 1) = .ok false := by
  have hv : lastApart.equals ⟨2, 1⟩ (.struct 0) (.struct 1) = .ok false := rfl
  exact ⟨hv, equals_of_le (by decide) (by decide) hv⟩

end Heap

end BoundedVm
