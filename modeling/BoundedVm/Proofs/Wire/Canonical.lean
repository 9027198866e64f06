import BoundedVm.Proofs.Wire.VarInt
import BoundedVm.Wire.Reader
import BoundedVm.Wire.Writer

/-! # Readers that accept one form only

A reader recovers a writer if the bytes that it takes off for a value are always the bytes that the
writer has for this value. Each reader of `Wire.Reader` recovers its writer of `Wire.Writer`, and
readers that are put together recover what is put together from their writers, so that an object read
has no other form than the one it was read from.

* `Reader.Recovers`: the property, and one lemma for each kind of field.
* `Reader.Recovers.canonical`: for a reader that must span its whole input. -/

namespace BoundedVm

namespace Reader

variable {α β : Type}

/-! ## Runs of readers -/

theorem bind_eq_ok_iff {r : Reader α} {next : α → Reader β} {input rest : List UInt8} {y : β} :
    (r >>= next) input = .ok y rest
      ↔ ∃ x mid, r input = .ok x mid ∧ next x mid = .ok y rest := by
  show EStateM.bind r next input = .ok y rest ↔ _
  unfold EStateM.bind
  cases hr : r input with
  | ok x mid => simp
  | error e mid => simp

@[simp] theorem pure_eq_ok_iff {x y : α} {input rest : List UInt8} :
    (pure x : Reader α) input = .ok y rest ↔ x = y ∧ input = rest := by
  show EStateM.Result.ok x input = .ok y rest ↔ _
  simp

@[simp] theorem throw_ne_ok {e : PayloadFault} {y : α} {input rest : List UInt8} :
    (throw e : Reader α) input ≠ .ok y rest := by
  show EStateM.Result.error e input ≠ .ok y rest
  simp

/-- A value spans all of some bytes if reading it leaves none of them. -/
theorem decode_eq_ok_iff {r : Reader α} {input : List UInt8} {x : α} :
    decode r input = .ok x ↔ r input = .ok x [] := by
  have hend : decode r input = .ok x
      ↔ ∃ rest, (do let x ← r; finish; pure x : Reader α) input = .ok x rest := by
    unfold decode
    cases hr : (do let x ← r; finish; pure x : Reader α) input <;> simp
  rw [hend]
  simp only [bind_eq_ok_iff, pure_eq_ok_iff]
  constructor
  · rintro ⟨rest, y, mid, hy, _, mid', hfinish, rfl, rfl⟩
    unfold finish at hfinish
    split at hfinish
    · rename_i hmid
      rw [hmid] at hy
      exact hy
    · cases hfinish
  · intro hx
    exact ⟨[], x, [], hx, (), [], rfl, rfl, rfl⟩

/-! ## Recovered forms -/

/-- Whether the bytes that a reader takes off for a value are those that a writer has for it. -/
def Recovers (r : Reader α) (encode : α → List UInt8) : Prop :=
  ∀ {input : List UInt8} {x : α} {rest : List UInt8},
    r input = .ok x rest → input = encode x ++ rest

/-- A way to write and a way to read between which every value has one form: what is read from some
bytes is written as these bytes, so that no other bytes are read as the same value. -/
def IsCanonical (encode : α → List UInt8) (decode : List UInt8 → Except PayloadFault α) : Prop :=
  (∀ input x, decode input = .ok x → encode x = input) ∧
    ∀ input input' x, decode input = .ok x → decode input' = .ok x → input = input'

/-- A reader that recovers a writer reads every value from one form only. -/
theorem Recovers.canonical {r : Reader α} {encode : α → List UInt8} (hr : r.Recovers encode) :
    IsCanonical encode (decode r) := by
  have hwritten : ∀ input x, decode r input = .ok x → encode x = input := by
    intro input x hx
    have hinput := hr (decode_eq_ok_iff.1 hx)
    rw [hinput, List.append_nil]
  refine ⟨hwritten, fun input input' x hx hx' => ?_⟩
  rw [← hwritten input x hx, hwritten input' x hx']

theorem recovers_bytes (n : Nat) : (bytes n).Recovers id := by
  intro input x rest hx
  unfold bytes at hx
  split at hx
  · cases hx
    exact (List.take_append_drop n input).symm
  · cases hx

theorem length_of_bytes_eq_ok {n : Nat} {input x rest : List UInt8}
    (hx : bytes n input = .ok x rest) : x.length = n := by
  unfold bytes at hx
  split at hx
  · rename_i hn
    cases hx
    exact List.length_take_of_le (hasBytes_iff.1 hn)
  · cases hx

/-- A number of fixed width is written back from the number that its bytes stand for. -/
theorem recovers_fixed (width : Nat) : (fixed width).Recovers (LittleEndian.encode width) := by
  intro input x rest hx
  obtain ⟨content, mid, hcontent, hx⟩ := bind_eq_ok_iff.1 hx
  obtain ⟨rfl, rfl⟩ := pure_eq_ok_iff.1 hx
  have hlen := length_of_bytes_eq_ok hcontent
  have hback := LittleEndian.encode_decode content
  rw [hlen] at hback
  rw [hback]
  exact recovers_bytes width hcontent

/-- A number of fixed width is below the bound of its width. -/
theorem lt_of_fixed_eq_ok {width x : Nat} {input rest : List UInt8}
    (hx : fixed width input = .ok x rest) : x < LittleEndian.bound width := by
  obtain ⟨content, mid, hcontent, hx⟩ := bind_eq_ok_iff.1 hx
  obtain ⟨rfl, rfl⟩ := pure_eq_ok_iff.1 hx
  have hlt := LittleEndian.decode_lt content
  rwa [length_of_bytes_eq_ok hcontent] at hlt

/-- A word that is read from a number of its width is written as this number. -/
theorem recovers_word {width : Nat} {ofNat : Nat → α} {toNat : α → Nat}
    (hword : ∀ n < LittleEndian.bound width, toNat (ofNat n) = n) :
    (do pure (ofNat (← fixed width)) : Reader α).Recovers
      fun x => LittleEndian.encode width (toNat x) := by
  intro input x rest hx
  obtain ⟨n, mid, hn, hx⟩ := bind_eq_ok_iff.1 hx
  obtain ⟨rfl, rfl⟩ := pure_eq_ok_iff.1 hx
  show input = LittleEndian.encode width (toNat (ofNat n)) ++ mid
  rw [hword n (lt_of_fixed_eq_ok hn)]
  exact recovers_fixed width hn

theorem recovers_u8 : u8.Recovers fun b => [b] := by
  have hword : u8.Recovers fun b => LittleEndian.encode 1 b.toNat :=
    recovers_word fun n (hn : n < LittleEndian.bound 1) => UInt8.toNat_ofNat_of_lt' hn
  intro input x rest hx
  simpa using hword hx

theorem recovers_u32 : u32.Recovers Wire.u32 :=
  recovers_word fun n (hn : n < LittleEndian.bound 4) => UInt32.toNat_ofNat_of_lt' hn

theorem recovers_u64 : u64.Recovers Wire.u64 :=
  recovers_word fun n (hn : n < LittleEndian.bound 8) => UInt64.toNat_ofNat_of_lt' hn

/-- Of the bytes, only 0 and 1 are truth values. -/
theorem recovers_bool : bool.Recovers Wire.bool := by
  intro input x rest hx
  obtain ⟨b, mid, hb, hx⟩ := bind_eq_ok_iff.1 hx
  rw [recovers_u8 hb]
  split at hx
  · rename_i hzero
    obtain ⟨rfl, rfl⟩ := pure_eq_ok_iff.1 hx
    rw [hzero]
    rfl
  · split at hx
    · rename_i hone
      obtain ⟨rfl, rfl⟩ := pure_eq_ok_iff.1 hx
      rw [hone]
      rfl
    · exact absurd hx throw_ne_ok

theorem recovers_digest (width : Nat) : (digest width).Recovers Digest.bytes := by
  intro input x rest hx
  unfold digest at hx
  split at hx
  · cases hx
    exact (List.take_append_drop width input).symm
  · cases hx

/-- A var-int is read from its shortest form only. -/
theorem recovers_varInt (max : Nat) : (varInt max).Recovers Wire.varInt := by
  intro input x rest hx
  unfold varInt at hx
  split at hx
  · cases hx
  · cases hx
  · rename_i v rest' hv
    split at hx
    · rename_i hp
      split at hx
      · cases hx
      · cases hx
        exact Leb128.eq_encode_append_of_decode hv (List.isPrefixOf_iff_prefix.mp hp)
    · cases hx

/-- What begins with its length is read up to this length. -/
theorem recovers_varBytes (max : Nat) : (varBytes max).Recovers Wire.varBytes := by
  intro input x rest hx
  obtain ⟨n, mid, hn, hx⟩ := bind_eq_ok_iff.1 hx
  rw [recovers_varInt max hn, recovers_bytes n hx, Wire.varBytes, length_of_bytes_eq_ok hx,
    List.append_assoc]
  rfl

/-- A text that is read has the bytes that it is read from. -/
theorem toUTF8_of_decodeUtf8_eq_ok {content input rest : List UInt8} {s : String}
    (hs : decodeUtf8 content input = .ok s rest) :
    s.toUTF8.data.toList = content ∧ input = rest := by
  unfold decodeUtf8 at hs
  cases hs' : String.fromUTF8? ⟨content.toArray⟩ with
  | none =>
    rw [hs'] at hs
    exact absurd hs throw_ne_ok
  | some s' =>
    rw [hs'] at hs
    obtain ⟨rfl, rfl⟩ := pure_eq_ok_iff.1 hs
    refine ⟨?_, rfl⟩
    unfold String.fromUTF8? at hs'
    split at hs'
    · cases hs'
      rfl
    · cases hs'

theorem recovers_varString (max : Nat) : (varString max).Recovers Wire.varString := by
  intro input x rest hx
  obtain ⟨content, mid, hcontent, hx⟩ := bind_eq_ok_iff.1 hx
  obtain ⟨rfl, rfl⟩ := toUTF8_of_decodeUtf8_eq_ok hx
  exact recovers_varBytes max hcontent

/-- As many values are read as are asked for, each of them from the form that it is written in. -/
theorem recovers_times {item : Reader α} {encode : α → List UInt8} (hitem : item.Recovers encode)
    {n : Nat} {input rest : List UInt8} {xs : List α} (hxs : times item n input = .ok xs rest) :
    xs.length = n ∧ input = xs.flatMap encode ++ rest := by
  induction n generalizing input xs with
  | zero =>
    obtain ⟨rfl, rfl⟩ := pure_eq_ok_iff.1 hxs
    exact ⟨rfl, rfl⟩
  | succ n ih =>
    obtain ⟨x, mid, hx, hxs⟩ := bind_eq_ok_iff.1 hxs
    obtain ⟨tail, mid', htail, hxs⟩ := bind_eq_ok_iff.1 hxs
    obtain ⟨rfl, rfl⟩ := pure_eq_ok_iff.1 hxs
    obtain ⟨rfl, hmid⟩ := ih htail
    refine ⟨rfl, ?_⟩
    rw [hitem hx, hmid, List.flatMap_cons, List.append_assoc]

theorem recovers_array {item : Reader α} {encode : α → List UInt8} (hitem : item.Recovers encode)
    (max : Nat) : (array max item).Recovers (Wire.array encode) := by
  intro input x rest hx
  obtain ⟨n, mid, hn, hx⟩ := bind_eq_ok_iff.1 hx
  obtain ⟨rfl, hmid⟩ := recovers_times hitem hx
  rw [recovers_varInt max hn, hmid, Wire.array, List.append_assoc]

end Reader

end BoundedVm
