import BoundedVm.Proofs.Wire.Faults
import BoundedVm.Proofs.Wire.Minimal

/-! # Cut and continued forms

A reader looks at the bytes from the front and no further than it needs to. If it reads a value where
more bytes follow, then it either does not need those, and reads the same value without them, or it runs
out of bytes where they are missing, whatever it would have complained about later. Readers keep this
property when they are put together, so that a form that is cut anywhere is refused for its end.

* `Reader.Incremental`: the property, and one lemma for each kind of field.
* `Reader.IsFrame`: bytes that are told from all their beginnings and from all their continuations.
* `Reader.Accepts.isFrame`: the bytes of a value that an incremental reader gives back. -/

namespace BoundedVm

variable {α β : Type}

/-- If a run is cut, its last byte is missing. -/
theorem Leb128.IsRun.endless_of_append {front back : List UInt8} (hrun : IsRun (front ++ back))
    (hback : back ≠ []) : ∀ b ∈ front, ¬ b < 128 := by
  induction front with
  | nil => simp
  | cons b front ih =>
    rw [List.cons_append] at hrun
    cases hlist : front ++ back with
    | nil => exact absurd (List.append_eq_nil_iff.mp hlist).2 hback
    | cons c run =>
      rw [hlist] at hrun ih
      cases hrun with
      | more hb hrun => exact List.forall_mem_cons.mpr ⟨hb, ih hrun⟩

namespace Reader

/-! ## Incremental readers -/

/-- Whether a reader runs out of bytes. -/
def RunsOut (r : Reader α) (input : List UInt8) : Prop :=
  ∃ needed remaining rest, remaining < needed ∧
    r input = .error (.unexpectedEnd needed remaining) rest

/-- A reader that takes a value off the front of some bytes either takes it off a first part of them
that holds it, or runs out of bytes there. -/
def Incremental (r : Reader α) : Prop :=
  ∀ front back x rest, r (front ++ back) = .ok x rest →
    (∃ mid, r front = .ok x mid ∧ rest = mid ++ back) ∨ r.RunsOut front

theorem incremental_pure (x : α) : (pure x : Reader α).Incremental := by
  intro front back y rest hy
  obtain ⟨rfl, rfl⟩ := pure_eq_ok_iff.1 hy
  exact .inl ⟨front, rfl, rfl⟩

theorem incremental_throw (e : PayloadFault) : (throw e : Reader α).Incremental :=
  fun _ _ _ _ hy => absurd hy throw_ne_ok

/-- If one of two readers runs out of bytes, so do both together. -/
theorem Incremental.bind {r : Reader α} {next : α → Reader β} (hr : r.Incremental)
    (hnext : ∀ x, (next x).Incremental) : (r >>= next).Incremental := by
  intro front back y rest hy
  obtain ⟨x, mid, hx, hy⟩ := bind_eq_ok_iff.1 hy
  rcases hr _ _ _ _ hx with ⟨mid, hcut, rfl⟩ | ⟨needed, remaining, left, hlt, he⟩
  · rcases hnext x _ _ _ _ hy with ⟨mid', hcut', rfl⟩ | ⟨needed, remaining, left, hlt, he⟩
    · exact .inl ⟨mid', bind_eq_ok_iff.2 ⟨x, mid, hcut, hcut'⟩, rfl⟩
    · exact .inr ⟨needed, remaining, left, hlt, bind_eq_error_iff.2 (.inr ⟨x, mid, hcut, he⟩)⟩
  · exact .inr ⟨needed, remaining, left, hlt, bind_eq_error_iff.2 (.inl he)⟩

/-- A check between two readers looks at no further bytes. -/
theorem Incremental.guarded {r : Reader α} (hr : r.Incremental) {refused : Prop}
    [Decidable refused] {e : PayloadFault} {next : PUnit → Reader α} :
    (if refused then (throw e : Reader PUnit) >>= next else r).Incremental := by
  split
  · intro front back y rest hy
    obtain ⟨_, _, hthrow, -⟩ := bind_eq_ok_iff.1 hy
    exact absurd hthrow throw_ne_ok
  · exact hr

/-! ## Fields of fixed width -/

theorem incremental_bytes (n : Nat) : (bytes n).Incremental := by
  intro front back x rest hx
  unfold bytes at hx
  split at hx
  · cases hx
    by_cases hn : n ≤ front.length
    · refine .inl ⟨front.drop n, ?_, List.drop_append_of_le_length hn⟩
      rw [bytes, if_pos (hasBytes_iff.2 hn), List.take_append_of_le_length hn]
    · refine .inr ⟨n, front.length, front, Nat.lt_of_not_le hn, ?_⟩
      rw [bytes, if_neg (fun h => hn (hasBytes_iff.1 h))]
  · cases hx

theorem incremental_fixed (width : Nat) : (fixed width).Incremental :=
  (incremental_bytes width).bind fun _ => incremental_pure _

theorem incremental_u8 : u8.Incremental :=
  (incremental_fixed 1).bind fun _ => incremental_pure _

theorem incremental_u32 : u32.Incremental :=
  (incremental_fixed 4).bind fun _ => incremental_pure _

theorem incremental_u64 : u64.Incremental :=
  (incremental_fixed 8).bind fun _ => incremental_pure _

theorem incremental_digest (width : Nat) : (digest width).Incremental := by
  intro front back d rest hd
  unfold digest at hd
  split at hd
  · cases hd
    by_cases hwidth : width ≤ front.length
    · refine .inl ⟨front.drop width, ?_, List.drop_append_of_le_length hwidth⟩
      simp only [digest, dif_pos (hasBytes_iff.2 hwidth), List.take_append_of_le_length hwidth]
    · refine .inr ⟨width, front.length, front, Nat.lt_of_not_le hwidth, ?_⟩
      rw [digest, dif_neg (fun h => hwidth (hasBytes_iff.1 h))]
  · cases hd

/-! ## Fields that begin with their length -/

/-- A var-int that is cut has no end. -/
theorem incremental_varInt (max : Nat) : (varInt max).Incremental := by
  intro front back v rest hv
  obtain ⟨hwithin, hform⟩ := (accepts_varInt_within max).eq_ok_iff.mp hv
  rcases List.append_eq_append_iff.mp hform with ⟨missing, hcut, hback⟩ | ⟨mid, rfl, rfl⟩
  · by_cases hmissing : missing = []
    · -- the var-int ends where the first part does
      subst hmissing
      rw [List.append_nil] at hcut
      refine .inl ⟨[], ?_, hback.symm⟩
      rw [← hcut, ← List.append_nil (Wire.varInt v)]
      exact (accepts_varInt_within max).read_append hwithin []
    · have hrun : Leb128.IsRun (front ++ missing) := hcut ▸ Leb128.isRun_encode v
      have hendless := hrun.endless_of_append hmissing
      refine .inr ⟨front.length + 1, front.length, front, Nat.lt_succ_self _, ?_⟩
      simp only [varInt, Leb128.decode, Leb128.decodeFrom_of_endless hendless]
  · exact .inl ⟨mid, (accepts_varInt_within max).read_append hwithin mid, rfl⟩

theorem incremental_varBytes (max : Nat) : (varBytes max).Incremental :=
  (incremental_varInt max).bind incremental_bytes

theorem incremental_decodeUtf8 (content : List UInt8) : (decodeUtf8 content).Incremental := by
  unfold decodeUtf8
  split
  · exact incremental_pure _
  · exact incremental_throw _

theorem incremental_varString (max : Nat) : (varString max).Incremental :=
  (incremental_varBytes max).bind incremental_decodeUtf8

theorem Incremental.times {item : Reader α} (hitem : item.Incremental) (n : Nat) :
    (times item n).Incremental := by
  induction n with
  | zero => exact incremental_pure _
  | succ n ih => exact hitem.bind fun _ => ih.bind fun _ => incremental_pure _

theorem Incremental.array {item : Reader α} (hitem : item.Incremental) (max : Nat) :
    (array max item).Incremental :=
  (incremental_varInt max).bind hitem.times

/-! ## Whole inputs -/

/-- Bytes that are told from all their beginnings and from all their continuations: a beginning is
refused for its end, and a continuation for the number of bytes too many. -/
structure IsFrame (decode : List UInt8 → Except PayloadFault α) (form : List UInt8) : Prop where
  cut {front : List UInt8} : front <+: form → front ≠ form →
    ∃ needed remaining, remaining < needed ∧
      decode front = .error (.unexpectedEnd needed remaining)
  continued {tail : List UInt8} : tail ≠ [] →
    decode (form ++ tail) = .error (.trailingBytes tail.length)

/-- The bytes of a value are a frame, if the reader gives the value back and is incremental. -/
theorem Accepts.isFrame {r : Reader α} {Fits : α → Prop} {encode : α → List UInt8}
    (hr : r.Accepts Fits encode) (hinc : r.Incremental) {form : List UInt8} {x : α}
    (hform : decode r form = .ok x) : IsFrame (decode r) form := by
  constructor
  · rintro front ⟨back, rfl⟩ hne
    have hread := Reader.decode_eq_ok_iff.1 hform
    rcases hinc _ _ _ _ hread with ⟨mid, -, hnil⟩ | ⟨needed, remaining, rest, hlt, he⟩
    · -- a value that is read without the missing bytes would leave them
      obtain ⟨-, rfl⟩ := List.append_eq_nil_iff.mp hnil.symm
      exact absurd (List.append_nil front).symm hne
    · exact ⟨needed, remaining, hlt, decode_eq_error_iff.2 (.inl ⟨rest, he⟩)⟩
  · intro tail htail
    obtain ⟨hfits, rfl⟩ := hr.decode_eq_ok_iff.1 hform
    exact decode_eq_error_iff.2 (.inr ⟨x, tail, hr.read_append hfits tail, htail, rfl⟩)

end Reader

end BoundedVm
