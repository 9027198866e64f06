import BoundedVm.Proofs.Wire.Canonical

/-! # The faults of readers

What a reader of wire values refuses is always the input itself: it ends too early, holds too much or
writes no value of the kind. `Reader.BlamesInput` is kept when such readers are put together. -/

namespace BoundedVm

namespace Reader

variable {α β : Type}

/-! ## Failing runs of readers -/

theorem bind_eq_error_iff {r : Reader α} {next : α → Reader β} {input rest : List UInt8}
    {e : PayloadFault} :
    (r >>= next) input = .error e rest
      ↔ r input = .error e rest ∨ ∃ x mid, r input = .ok x mid ∧ next x mid = .error e rest := by
  show EStateM.bind r next input = .error e rest ↔ _
  unfold EStateM.bind
  cases hr : r input with
  | ok x mid => simp
  | error e mid => simp

@[simp] theorem pure_ne_error {x : α} {e : PayloadFault} {input rest : List UInt8} :
    (pure x : Reader α) input ≠ .error e rest := by
  show EStateM.Result.ok x input ≠ .error e rest
  simp

@[simp] theorem throw_eq_error_iff {e e' : PayloadFault} {input rest : List UInt8} :
    (throw e : Reader α) input = .error e' rest ↔ e = e' ∧ input = rest := by
  show EStateM.Result.error e input = .error e' rest ↔ _
  simp

/-- Some bytes are not a value if reading it fails, or if it leaves some of them. -/
theorem decode_eq_error_iff {r : Reader α} {input : List UInt8} {e : PayloadFault} :
    decode r input = .error e
      ↔ (∃ rest, r input = .error e rest) ∨
        ∃ x rest, r input = .ok x rest ∧ rest ≠ [] ∧ e = .trailingBytes rest.length := by
  have hend : decode r input = .error e
      ↔ ∃ rest, (do let x ← r; finish; pure x : Reader α) input = .error e rest := by
    unfold decode
    cases hr : (do let x ← r; finish; pure x : Reader α) input <;> simp
  have hfinish : ∀ {mid rest}, finish mid = .error e rest
      ↔ mid ≠ [] ∧ e = .trailingBytes mid.length ∧ mid = rest := by
    intro mid rest
    unfold finish
    by_cases hmid : mid = []
    · simp [hmid]
    · simp [hmid, eq_comm]
  rw [hend]
  simp only [bind_eq_error_iff, pure_ne_error, hfinish, and_false, exists_const, or_false]
  constructor
  · rintro ⟨rest, he | ⟨x, mid, hx, hmid, rfl, rfl⟩⟩
    · exact .inl ⟨rest, he⟩
    · exact .inr ⟨x, mid, hx, hmid, rfl⟩
  · rintro (⟨rest, he⟩ | ⟨x, mid, hx, hmid, rfl⟩)
    · exact ⟨rest, .inl he⟩
    · exact ⟨mid, .inr ⟨x, mid, hx, hmid, rfl, rfl⟩⟩

/-! ## Faults of the input -/

/-- A reader that fails only for faults of the input itself. -/
def BlamesInput (r : Reader α) : Prop :=
  ∀ input rest e, r input = .error e rest → e.isMalformed = true

theorem blamesInput_pure (x : α) : (pure x : Reader α).BlamesInput :=
  fun _ _ _ he => absurd he pure_ne_error

theorem blamesInput_throw {e : PayloadFault} (he : e.isMalformed = true) :
    (throw e : Reader α).BlamesInput := by
  intro input rest e' he'
  obtain ⟨rfl, -⟩ := throw_eq_error_iff.1 he'
  exact he

/-- One reader after another fails only for the input if both do. -/
theorem BlamesInput.bind {r : Reader α} {next : α → Reader β} (hr : r.BlamesInput)
    (hnext : ∀ x, (next x).BlamesInput) : (r >>= next).BlamesInput := by
  intro input rest e he
  rcases bind_eq_error_iff.1 he with he | ⟨x, mid, -, he⟩
  · exact hr input rest e he
  · exact hnext x mid rest e he

theorem blamesInput_bytes (n : Nat) : (bytes n).BlamesInput := by
  intro input rest e he
  unfold bytes at he
  split at he <;> cases he
  rfl

theorem blamesInput_fixed (width : Nat) : (fixed width).BlamesInput :=
  (blamesInput_bytes width).bind fun _ => blamesInput_pure _

theorem blamesInput_u32 : u32.BlamesInput :=
  (blamesInput_fixed 4).bind fun _ => blamesInput_pure _

theorem blamesInput_digest (width : Nat) : (digest width).BlamesInput := by
  intro input rest e he
  unfold digest at he
  split at he <;> cases he
  rfl

theorem blamesInput_varInt (max : Nat) : (varInt max).BlamesInput := by
  intro input rest e he
  unfold varInt at he
  split at he
  · cases he
    rfl
  · cases he
    rfl
  · split at he
    · split at he <;> cases he
      rfl
    · cases he
      rfl

theorem blamesInput_varBytes (max : Nat) : (varBytes max).BlamesInput :=
  (blamesInput_varInt max).bind blamesInput_bytes

theorem blamesInput_decodeUtf8 (content : List UInt8) : (decodeUtf8 content).BlamesInput := by
  unfold decodeUtf8
  split
  · exact blamesInput_pure _
  · exact blamesInput_throw rfl

theorem blamesInput_varString (max : Nat) : (varString max).BlamesInput :=
  (blamesInput_varBytes max).bind blamesInput_decodeUtf8

theorem BlamesInput.times {item : Reader α} (hitem : item.BlamesInput) (n : Nat) :
    (times item n).BlamesInput := by
  induction n with
  | zero => exact blamesInput_pure _
  | succ n ih => exact hitem.bind fun _ => ih.bind fun _ => blamesInput_pure _

theorem BlamesInput.array {item : Reader α} (hitem : item.BlamesInput) (max : Nat) :
    (array max item).BlamesInput :=
  (blamesInput_varInt max).bind hitem.times

end Reader

end BoundedVm
