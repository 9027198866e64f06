import BoundedVm.Bytes.Leb128
import Mathlib.Tactic.Ring

/-! # Runs of digits

A number in base 128 ends with its first byte below 128, so that the bytes of a number are told from
what follows them without knowing the number. `Leb128.IsRun` says of a list that it is such a run.
Writing gives a run, and reading takes one off; since a list begins with one run only, what is written
and what is read are the same bytes as soon as the list begins with both.

* `Leb128.eq_encode_append_of_decode`: what is read is written back.
* `Leb128.encode_append_inj`: what is written tells numbers of any size apart.
* `Leb128.decode_encode_append`: what is written is read back, for a number within 64 bits.
* `Leb128.lt_of_decode`: no other number is read. -/

namespace BoundedVm

namespace Leb128

/-- A run of digits: the last byte is below 128, and all before it are not. -/
inductive IsRun : List UInt8 → Prop
  | last {b : UInt8} (hb : b < 128) : IsRun [b]
  | more {b : UInt8} {run : List UInt8} (hb : ¬ b < 128) (hr : IsRun run) : IsRun (b :: run)

/-- A list begins with one run only. -/
theorem IsRun.append_inj {run run' rest rest' : List UInt8} (hr : IsRun run) (hr' : IsRun run')
    (heq : run ++ rest = run' ++ rest') : run = run' ∧ rest = rest' := by
  induction hr generalizing run' with
  | last hb =>
    cases hr' with
    | last hb' => simpa using heq
    | more hb' _ =>
      obtain ⟨rfl, -⟩ := List.cons.inj heq
      exact absurd hb hb'
  | more hb _ ih =>
    cases hr' with
    | last hb' =>
      obtain ⟨rfl, -⟩ := List.cons.inj heq
      exact absurd hb' hb
    | more hb' hr' =>
      obtain ⟨rfl, htail⟩ := List.cons.inj heq
      obtain ⟨rfl, rfl⟩ := ih hr' htail
      exact ⟨rfl, rfl⟩

/-- What is written is a run. -/
theorem isRun_encode (n : Nat) : IsRun (encode n) := by
  fun_induction encode n with
  | case1 n hn =>
    refine .last (UInt8.lt_iff_toNat_lt.mpr ?_)
    rw [UInt8.toNat_ofNat']
    show n % 256 < 128
    omega
  | case2 n hn ih =>
    refine .more (fun hb => ?_) ih
    have hlt := UInt8.lt_iff_toNat_lt.mp hb
    rw [UInt8.toNat_ofNat'] at hlt
    change (n % 128 + 128) % 256 < 128 at hlt
    omega

/-- What is read is a run. -/
theorem exists_isRun_of_decodeFrom {place acc v : Nat} {bytes rest : List UInt8}
    (hv : decodeFrom place acc bytes = .number v rest) :
    ∃ run, IsRun run ∧ bytes = run ++ rest := by
  induction bytes generalizing place acc with
  | nil => simp at hv
  | cons b bytes ih =>
    rw [decodeFrom] at hv
    split at hv
    · -- a tenth byte above 1 gives no number
      split at hv <;> cases hv
    · by_cases hb : b < 128
      · simp only [hb, if_true] at hv
        cases hv
        exact ⟨[b], .last hb, rfl⟩
      · simp only [hb, if_false] at hv
        obtain ⟨run, hr, rfl⟩ := ih hv
        exact ⟨b :: run, .more hb hr, rfl⟩

/-- A number is read from its shortest form if the bytes begin with this form at all. -/
theorem eq_encode_append_of_decode {v : Nat} {bytes rest : List UInt8}
    (hv : decode bytes = .number v rest) (hp : encode v <+: bytes) :
    bytes = encode v ++ rest := by
  obtain ⟨run, hr, hbytes⟩ := exists_isRun_of_decodeFrom hv
  obtain ⟨rest', hrest'⟩ := hp
  obtain ⟨rfl, -⟩ := hr.append_inj (isRun_encode v) (hbytes.symm.trans hrest'.symm)
  exact hbytes

/-! ## Numbers are told apart -/

theorem encode_ne_nil (n : Nat) : encode n ≠ [] := by
  rw [encode]
  split <;> simp

theorem encode_injective : Function.Injective encode := by
  intro m n heq
  fun_induction encode m generalizing n with
  | case1 m hm =>
    by_cases hn : n < 128
    · rw [encode_of_lt hn] at heq
      have hbyte := congrArg UInt8.toNat (List.cons.inj heq).1
      rw [UInt8.toNat_ofNat', UInt8.toNat_ofNat'] at hbyte
      omega
    · -- one digit is not the same as several
      rw [encode_of_le (Nat.le_of_not_lt hn)] at heq
      exact absurd (List.cons.inj heq).2.symm (encode_ne_nil _)
  | case2 m hm ih =>
    by_cases hn : n < 128
    · rw [encode_of_lt hn] at heq
      exact absurd (List.cons.inj heq).2 (encode_ne_nil _)
    · rw [encode_of_le (Nat.le_of_not_lt hn)] at heq
      obtain ⟨hhead, htail⟩ := List.cons.inj heq
      have hbyte := congrArg UInt8.toNat hhead
      rw [UInt8.toNat_ofNat', UInt8.toNat_ofNat'] at hbyte
      have hdiv := ih htail
      omega

/-- Numbers are told apart by their forms, whatever follows these. -/
theorem encode_append_inj {m n : Nat} {rest rest' : List UInt8}
    (heq : encode m ++ rest = encode n ++ rest') : m = n ∧ rest = rest' := by
  obtain ⟨hform, hrest⟩ := (isRun_encode m).append_inj (isRun_encode n) heq
  exact ⟨encode_injective hform, hrest⟩

/-! ## Numbers are read back -/

/-- The digits of a number that fits the places left are read back; the tenth place has room for a
single bit. -/
theorem decodeFrom_encode_append {place acc n : Nat} (hplace : place ≤ 9)
    (hn : n < 2 ^ (64 - 7 * place)) (rest : List UInt8) :
    decodeFrom place acc (encode n ++ rest) = .number (acc + n * 2 ^ (7 * place)) rest := by
  fun_induction encode n generalizing place acc with
  | case1 n hlt =>
    have hbyte : (UInt8.ofNat n).toNat = n := by
      rw [UInt8.toNat_ofNat']
      omega
    have htenth : ¬ (place = 9 ∧ 1 < UInt8.ofNat n) := by
      rintro ⟨rfl, hb⟩
      have hb := UInt8.lt_iff_toNat_lt.mp hb
      rw [hbyte] at hb
      exact absurd hn (Nat.not_lt.mpr hb)
    have hlast : UInt8.ofNat n < 128 := by
      rw [UInt8.lt_iff_toNat_lt, hbyte]
      exact hlt
    rw [List.singleton_append, decodeFrom, if_neg htenth, if_pos hlast, hbyte,
      Nat.mod_eq_of_lt hlt, Nat.shiftLeft_eq]
  | case2 n hle ih =>
    have hbyte : (UInt8.ofNat (n % 128 + 128)).toNat = n % 128 + 128 := by
      rw [UInt8.toNat_ofNat']
      omega
    -- the tenth place would have room for a number below 2 only
    have hplace' : place ≤ 8 := by
      refine Nat.le_of_lt_succ (Nat.lt_of_le_of_ne hplace ?_)
      rintro rfl
      have htwo : n < 2 := hn
      omega
    have hmore : ¬ UInt8.ofNat (n % 128 + 128) < 128 := by
      rw [UInt8.lt_iff_toNat_lt, hbyte]
      exact Nat.not_lt.mpr (Nat.le_add_left 128 _)
    have hpow : 2 ^ (64 - 7 * place) = 128 * 2 ^ (64 - 7 * (place + 1)) := by
      rw [show 64 - 7 * place = 7 + (64 - 7 * (place + 1)) by omega, Nat.pow_add]
    have hdiv : n / 128 < 2 ^ (64 - 7 * (place + 1)) := by
      rw [hpow] at hn
      exact Nat.div_lt_of_lt_mul hn
    have hvalue : acc + n % 128 * 2 ^ (7 * place) + n / 128 * 2 ^ (7 * (place + 1))
        = acc + n * 2 ^ (7 * place) := by
      have hsplit := Nat.mod_add_div n 128
      calc acc + n % 128 * 2 ^ (7 * place) + n / 128 * 2 ^ (7 * (place + 1))
          = acc + (n % 128 + 128 * (n / 128)) * 2 ^ (7 * place) := by
            rw [Nat.mul_succ, Nat.pow_add]
            ring
        _ = acc + n * 2 ^ (7 * place) := by rw [hsplit]
    rw [List.cons_append, decodeFrom, if_neg (fun h => absurd h.1 (by omega)), if_neg hmore, hbyte,
      Nat.add_mod_right, Nat.mod_mod, Nat.shiftLeft_eq, ih (by omega) hdiv, hvalue]

/-- A number within 64 bits is read back, whatever follows it. -/
theorem decode_encode_append {n : Nat} (hn : n < 2 ^ 64) (rest : List UInt8) :
    decode (encode n ++ rest) = .number n rest := by
  have hread : decodeFrom 0 0 (encode n ++ rest) = .number (0 + n * 2 ^ (7 * 0)) rest :=
    decodeFrom_encode_append (Nat.zero_le 9) hn rest
  rwa [Nat.zero_add, Nat.mul_zero, Nat.pow_zero, Nat.mul_one] at hread

/-- Reading never goes beyond 64 bits, the tenth place adding a single one. -/
theorem lt_of_decodeFrom {place acc v : Nat} {bytes rest : List UInt8} (hplace : place ≤ 9)
    (hacc : acc < 2 ^ (7 * place)) (hv : decodeFrom place acc bytes = .number v rest) :
    v < 2 ^ 64 := by
  induction bytes generalizing place acc with
  | nil => simp at hv
  | cons b bytes ih =>
    have hnext : acc + b.toNat % 128 * 2 ^ (7 * place) < 2 ^ (7 * (place + 1)) := by
      have hdigit : b.toNat % 128 * 2 ^ (7 * place) ≤ 127 * 2 ^ (7 * place) :=
        Nat.mul_le_mul_right _ (by omega)
      rw [Nat.mul_succ, Nat.pow_add]
      omega
    rw [decodeFrom] at hv
    by_cases htenth : place = 9 ∧ 1 < b
    · rw [if_pos htenth] at hv
      split at hv <;> cases hv
    · rw [if_neg htenth, Nat.shiftLeft_eq] at hv
      by_cases hb : b < 128
      · simp only [hb, if_true] at hv
        cases hv
        rcases Nat.lt_or_eq_of_le hplace with hlt | rfl
        · exact Nat.lt_of_lt_of_le hnext (Nat.pow_le_pow_right (by omega) (by omega))
        · have hbit : b ≤ 1 := UInt8.not_lt.mp fun h => htenth ⟨rfl, h⟩
          have hbit : b.toNat ≤ 1 := UInt8.le_iff_toNat_le.mp hbit
          omega
      · simp only [hb, if_false] at hv
        have hne : place ≠ 9 := by
          rintro rfl
          have hle : 128 ≤ b.toNat := UInt8.le_iff_toNat_le.mp (UInt8.not_lt.mp hb)
          exact htenth ⟨rfl, UInt8.lt_iff_toNat_lt.mpr (Nat.lt_of_lt_of_le (by decide) hle)⟩
        exact ih (by omega) hnext hv

theorem lt_of_decode {v : Nat} {bytes rest : List UInt8} (hv : decode bytes = .number v rest) :
    v < 2 ^ 64 :=
  lt_of_decodeFrom (Nat.zero_le 9) Nat.zero_lt_one hv

end Leb128

end BoundedVm
