import BoundedVm.Proofs.Wire.Canonical

/-! # Readers that give back what was written

A writer is delimited if what it writes for a value is told apart from what follows, so that forms can
be put one after the other without a value being mistaken for another. A reader accepts a writer under
a condition if it gives back exactly the values that meet the condition, each from its own form and from
nothing else, and leaves what follows the form. The condition is what a reader demands of the values,
such as a largest length: a writer writes also the values that do not meet it.

* `Wire.Delimited`: the property of writers, for numbers, byte strings and texts of any size.
* `Reader.Accepts`: the property of readers, and one lemma for each kind of field.
* `Reader.Accepts.decode_eq_ok_iff`: for a reader that must span its whole input.
* `Reader.varInt_min`: bounds beyond 64 bits, under which the numbers of 64 bits are read. -/

namespace BoundedVm

variable {α : Type}

/-! ## Delimited forms -/

namespace Wire

/-- A writer whose forms tell the values apart, whatever follows the forms. -/
structure Delimited (encode : α → List UInt8) : Prop where
  append_inj {x y : α} {rest rest' : List UInt8} :
    encode x ++ rest = encode y ++ rest' → x = y ∧ rest = rest'

variable {item : α → List UInt8}

theorem Delimited.injective (hitem : Delimited item) : Function.Injective item := by
  intro x y hxy
  exact (hitem.append_inj (congrArg (· ++ []) hxy)).1

theorem delimited_varInt : Delimited varInt :=
  ⟨Leb128.encode_append_inj⟩

theorem delimited_varBytes : Delimited varBytes := by
  constructor
  intro x y rest rest' heq
  rw [varBytes, varBytes, List.append_assoc, List.append_assoc] at heq
  obtain ⟨hlen, htail⟩ := delimited_varInt.append_inj heq
  exact List.append_inj htail hlen

theorem delimited_varString : Delimited varString := by
  constructor
  intro x y rest rest' heq
  obtain ⟨hbytes, hrest⟩ := delimited_varBytes.append_inj heq
  have hdata : x.toUTF8.data = y.toUTF8.data := Array.toList_inj.mp hbytes
  exact ⟨String.toByteArray_inj.mp (ByteArray.ext hdata), hrest⟩

/-- Lists of one length are told apart by the forms of their elements. -/
theorem Delimited.flatMap_append_inj (hitem : Delimited item) {xs ys : List α}
    {rest rest' : List UInt8} (hlen : xs.length = ys.length)
    (heq : xs.flatMap item ++ rest = ys.flatMap item ++ rest') : xs = ys ∧ rest = rest' := by
  induction xs generalizing ys with
  | nil =>
    obtain rfl := List.length_eq_zero_iff.mp hlen.symm
    exact ⟨rfl, heq⟩
  | cons x xs ih =>
    cases ys with
    | nil => cases hlen
    | cons y ys =>
      rw [List.flatMap_cons, List.flatMap_cons, List.append_assoc, List.append_assoc] at heq
      obtain ⟨rfl, htail⟩ := hitem.append_inj heq
      obtain ⟨rfl, rfl⟩ := ih (Nat.succ.inj hlen) htail
      exact ⟨rfl, rfl⟩

theorem Delimited.array (hitem : Delimited item) : Delimited (array item) := by
  constructor
  intro x y rest rest' heq
  rw [Wire.array, Wire.array, List.append_assoc, List.append_assoc] at heq
  obtain ⟨hlen, htail⟩ := delimited_varInt.append_inj heq
  exact hitem.flatMap_append_inj hlen htail

end Wire

/-! ## Accepted forms -/

namespace Reader

variable {r : Reader α} {Fits : α → Prop} {encode : α → List UInt8}

/-- A reader that gives back exactly the values that meet a condition, each from its own form, and
leaves what follows the form. -/
structure Accepts (r : Reader α) (Fits : α → Prop) (encode : α → List UInt8) : Prop where
  eq_ok_iff {input : List UInt8} {x : α} {rest : List UInt8} :
    r input = .ok x rest ↔ Fits x ∧ input = encode x ++ rest

/-- A reader that recovers a writer accepts it under a condition that it both grants and needs. -/
theorem Accepts.of_recovers (hr : r.Recovers encode)
    (hgrants : ∀ {input x rest}, r input = .ok x rest → Fits x)
    (hneeds : ∀ {x rest}, Fits x → r (encode x ++ rest) = .ok x rest) : r.Accepts Fits encode := by
  constructor
  intro input x rest
  constructor
  · intro hx
    exact ⟨hgrants hx, hr hx⟩
  · rintro ⟨hfits, rfl⟩
    exact hneeds hfits

/-- A value that meets the condition is read back. -/
theorem Accepts.read_append (hr : r.Accepts Fits encode) {x : α} (hx : Fits x)
    (rest : List UInt8) : r (encode x ++ rest) = .ok x rest :=
  hr.eq_ok_iff.mpr ⟨hx, rfl⟩

/-- A writer whose values are all read back is delimited. -/
theorem Accepts.delimited (hr : r.Accepts (fun _ => True) encode) : Wire.Delimited encode := by
  constructor
  intro x y rest rest' heq
  have hx := hr.read_append (x := x) trivial rest
  rw [heq, hr.read_append trivial rest'] at hx
  cases hx
  exact ⟨rfl, rfl⟩

/-- The values that span some bytes are those that meet the condition and have these bytes as their
form. -/
theorem Accepts.decode_eq_ok_iff (hr : r.Accepts Fits encode) {input : List UInt8} {x : α} :
    decode r input = .ok x ↔ Fits x ∧ input = encode x := by
  rw [Reader.decode_eq_ok_iff, hr.eq_ok_iff, List.append_nil]

/-! ## Fields of fixed width -/

theorem accepts_bytes (n : Nat) : (bytes n).Accepts (fun x => x.length = n) id := by
  refine .of_recovers (recovers_bytes n) length_of_bytes_eq_ok fun {x rest} hx => ?_
  have hn : hasBytes n (x ++ rest) = true := by
    rw [hasBytes_iff, List.length_append, hx]
    exact Nat.le_add_right n _
  show bytes n (x ++ rest) = .ok x rest
  rw [bytes, if_pos hn, List.take_left' hx, List.drop_left' hx]

theorem accepts_fixed (width : Nat) :
    (fixed width).Accepts (· < LittleEndian.bound width) (LittleEndian.encode width) := by
  refine .of_recovers (recovers_fixed width) lt_of_fixed_eq_ok fun {n rest} hn => ?_
  have hbytes := (accepts_bytes width).read_append (LittleEndian.length_encode width n) rest
  exact bind_eq_ok_iff.2
    ⟨_, _, hbytes, pure_eq_ok_iff.2 ⟨LittleEndian.decode_encode hn, rfl⟩⟩

/-- A word is read back if its number is within the width and stands for this word. -/
theorem accepts_word {width : Nat} {ofNat : Nat → α} {toNat : α → Nat}
    (hword : ∀ n < LittleEndian.bound width, toNat (ofNat n) = n)
    (hback : ∀ x, ofNat (toNat x) = x) (hlt : ∀ x, toNat x < LittleEndian.bound width) :
    (do pure (ofNat (← fixed width)) : Reader α).Accepts (fun _ => True)
      fun x => LittleEndian.encode width (toNat x) := by
  refine .of_recovers (recovers_word hword) (fun _ => trivial) fun {x rest} _ => ?_
  have hfixed := (accepts_fixed width).read_append (hlt x) rest
  exact bind_eq_ok_iff.2 ⟨_, _, hfixed, pure_eq_ok_iff.2 ⟨hback x, rfl⟩⟩

theorem accepts_u8 : u8.Accepts (fun _ => True) fun b => [b] := by
  have hword : u8.Accepts (fun _ => True) fun b => LittleEndian.encode 1 b.toNat :=
    accepts_word (fun n (hn : n < LittleEndian.bound 1) => UInt8.toNat_ofNat_of_lt' hn)
      (fun _ => UInt8.ofNat_toNat) UInt8.toNat_lt
  simpa using hword

theorem accepts_u16 : u16.Accepts (fun _ => True) Wire.u16 :=
  accepts_word (fun n (hn : n < LittleEndian.bound 2) => UInt16.toNat_ofNat_of_lt' hn)
    (fun _ => UInt16.ofNat_toNat) UInt16.toNat_lt

theorem accepts_u32 : u32.Accepts (fun _ => True) Wire.u32 :=
  accepts_word (fun n (hn : n < LittleEndian.bound 4) => UInt32.toNat_ofNat_of_lt' hn)
    (fun _ => UInt32.ofNat_toNat) UInt32.toNat_lt

theorem accepts_u64 : u64.Accepts (fun _ => True) Wire.u64 :=
  accepts_word (fun n (hn : n < LittleEndian.bound 8) => UInt64.toNat_ofNat_of_lt' hn)
    (fun _ => UInt64.ofNat_toNat) UInt64.toNat_lt

theorem accepts_bool : bool.Accepts (fun _ => True) Wire.bool := by
  refine .of_recovers recovers_bool (fun _ => trivial) fun {b rest} _ => ?_
  have hbyte : u8 (Wire.bool b ++ rest) = .ok (if b then 1 else 0) rest :=
    accepts_u8.read_append trivial rest
  refine bind_eq_ok_iff.2 ⟨_, _, hbyte, ?_⟩
  cases b <;> rfl

theorem accepts_digest (width : Nat) : (digest width).Accepts (fun _ => True) Digest.bytes := by
  refine .of_recovers (recovers_digest width) (fun _ => trivial) fun {d rest} _ => ?_
  have hwidth : hasBytes width (d.bytes ++ rest) = true := by
    rw [hasBytes_iff, List.length_append, d.length_bytes]
    exact Nat.le_add_right width _
  rw [digest, dif_pos hwidth]
  congr 1
  · exact Digest.ext (List.take_left' d.length_bytes)
  · exact List.drop_left' d.length_bytes

/-! ## Fields that begin with their length -/

theorem accepts_varInt {max : Nat} (hmax : max < 2 ^ 64) :
    (varInt max).Accepts (· ≤ max) Wire.varInt := by
  refine .of_recovers (recovers_varInt max) (fun {input v rest} hv => ?_) fun {v rest} hv => ?_
  · unfold varInt at hv
    split at hv
    · cases hv
    · cases hv
    · split at hv
      · split at hv
        · cases hv
        · rename_i hle
          cases hv
          exact Nat.le_of_not_lt hle
      · cases hv
  · have hread := Leb128.decode_encode_append (Nat.lt_of_le_of_lt hv hmax) rest
    have hshortest : (Leb128.encode v).isPrefixOf (Leb128.encode v ++ rest) = true :=
      List.isPrefixOf_iff_prefix.mpr (List.prefix_append _ rest)
    simp only [varInt, Wire.varInt, hread, hshortest, if_true]
    exact if_neg (Nat.not_lt.mpr hv)

theorem accepts_varBytes {max : Nat} (hmax : max < 2 ^ 64) :
    (varBytes max).Accepts (fun x => x.length ≤ max) Wire.varBytes := by
  refine .of_recovers (recovers_varBytes max) (fun {input x rest} hx => ?_) fun {x rest} hx => ?_
  · obtain ⟨n, mid, hn, hx⟩ := bind_eq_ok_iff.1 hx
    rw [length_of_bytes_eq_ok hx]
    exact ((accepts_varInt hmax).eq_ok_iff.mp hn).1
  · rw [Wire.varBytes, List.append_assoc]
    exact bind_eq_ok_iff.2 ⟨_, _, (accepts_varInt hmax).read_append hx _,
      (accepts_bytes x.length).read_append rfl rest⟩

/-- A text is read back from its bytes. -/
theorem decodeUtf8_toUTF8 (s : String) (input : List UInt8) :
    decodeUtf8 s.toUTF8.data.toList input = .ok s input := by
  have hvalid : String.fromUTF8? s.toUTF8 = some s := dif_pos s.isValidUTF8
  unfold decodeUtf8
  rw [Array.toArray_toList, hvalid]
  rfl

theorem accepts_varString {max : Nat} (hmax : max < 2 ^ 64) :
    (varString max).Accepts (fun s => s.utf8ByteSize ≤ max) Wire.varString := by
  refine .of_recovers (recovers_varString max) (fun {input s rest} hs => ?_) fun {s rest} hs => ?_
  · obtain ⟨content, mid, hcontent, hs⟩ := bind_eq_ok_iff.1 hs
    obtain ⟨rfl, -⟩ := toUTF8_of_decodeUtf8_eq_ok hs
    exact ((accepts_varBytes hmax).eq_ok_iff.mp hcontent).1
  · have hbytes := (accepts_varBytes hmax).read_append (x := s.toUTF8.data.toList) hs rest
    exact bind_eq_ok_iff.2 ⟨_, _, hbytes, decodeUtf8_toUTF8 s rest⟩

/-! ## Lists -/

/-- As many values are read as are asked for, if each of them meets the condition. -/
theorem Accepts.times (hr : r.Accepts Fits encode) (n : Nat) :
    (times r n).Accepts (fun xs => xs.length = n ∧ ∀ x ∈ xs, Fits x) (List.flatMap encode) := by
  induction n with
  | zero =>
    constructor
    intro input xs rest
    rw [Reader.times, pure_eq_ok_iff]
    constructor
    · rintro ⟨rfl, rfl⟩
      exact ⟨⟨rfl, List.forall_mem_nil _⟩, rfl⟩
    · rintro ⟨⟨hlen, -⟩, rfl⟩
      obtain rfl := List.length_eq_zero_iff.mp hlen
      exact ⟨rfl, rfl⟩
  | succ n ih =>
    constructor
    intro input xs rest
    simp only [Reader.times, bind_eq_ok_iff, pure_eq_ok_iff, hr.eq_ok_iff, ih.eq_ok_iff]
    constructor
    · rintro ⟨x, mid, ⟨hx, rfl⟩, tail, mid', ⟨⟨rfl, htail⟩, rfl⟩, rfl, rfl⟩
      refine ⟨⟨rfl, List.forall_mem_cons.mpr ⟨hx, htail⟩⟩, ?_⟩
      rw [List.flatMap_cons, List.append_assoc]
    · rintro ⟨⟨hlen, hall⟩, rfl⟩
      obtain ⟨x, tail, rfl⟩ := List.exists_cons_of_length_eq_add_one hlen
      obtain ⟨hx, htail⟩ := List.forall_mem_cons.mp hall
      rw [List.flatMap_cons, List.append_assoc]
      exact ⟨x, _, ⟨hx, rfl⟩, tail, _, ⟨⟨Nat.succ.inj hlen, htail⟩, rfl⟩, rfl, rfl⟩

theorem Accepts.array (hr : r.Accepts Fits encode) {max : Nat} (hmax : max < 2 ^ 64) :
    (array max r).Accepts (fun xs => xs.length ≤ max ∧ ∀ x ∈ xs, Fits x) (Wire.array encode) := by
  constructor
  intro input xs rest
  simp only [Reader.array, bind_eq_ok_iff, (accepts_varInt hmax).eq_ok_iff,
    (hr.times _).eq_ok_iff]
  constructor
  · rintro ⟨n, mid, ⟨hn, rfl⟩, ⟨rfl, hall⟩, rfl⟩
    refine ⟨⟨hn, hall⟩, ?_⟩
    rw [Wire.array, List.append_assoc]
  · rintro ⟨⟨hn, hall⟩, rfl⟩
    rw [Wire.array, List.append_assoc]
    exact ⟨_, _, ⟨hn, rfl⟩, ⟨rfl, hall⟩, rfl⟩

/-! ## Any bounds

A bound may be beyond what 64 bits can write. The numbers that are read then end before the bound. -/

/-- Whether a number is within a bound and within 64 bits. -/
def Within (max n : Nat) : Prop :=
  n ≤ max ∧ n < 2 ^ 64

theorem le_min_iff_within {max n : Nat} : n ≤ min max (2 ^ 64 - 1) ↔ Within max n := by
  unfold Within
  omega

/-- A bound beyond 64 bits is no other bound than the largest number of 64 bits. -/
theorem varInt_min (max : Nat) : varInt (min max (2 ^ 64 - 1)) = varInt max := by
  rcases le_total max (2 ^ 64 - 1) with hle | hle
  · rw [min_eq_left hle]
  · rw [min_eq_right hle]
    funext input
    unfold varInt
    split
    · rfl
    · rfl
    · rename_i v rest hv
      have hlt := Leb128.lt_of_decode hv
      rw [if_neg (by omega : ¬ v > 2 ^ 64 - 1), if_neg (by omega : ¬ v > max)]

theorem Accepts.congr {Fits' : α → Prop} (hr : r.Accepts Fits encode)
    (hfits : ∀ x, Fits x ↔ Fits' x) : r.Accepts Fits' encode := by
  constructor
  intro input x rest
  rw [hr.eq_ok_iff, hfits]

variable (max : Nat)

theorem accepts_varInt_within : (varInt max).Accepts (Within max) Wire.varInt := by
  rw [← varInt_min]
  exact (accepts_varInt (by omega)).congr fun _ => le_min_iff_within

theorem accepts_varBytes_within :
    (varBytes max).Accepts (fun x => Within max x.length) Wire.varBytes := by
  rw [varBytes, ← varInt_min, ← varBytes]
  exact (accepts_varBytes (by omega)).congr fun _ => le_min_iff_within

theorem accepts_varString_within :
    (varString max).Accepts (fun s => Within max s.utf8ByteSize) Wire.varString := by
  rw [varString, varBytes, ← varInt_min, ← varBytes, ← varString]
  exact (accepts_varString (by omega)).congr fun _ => le_min_iff_within

theorem Accepts.array_within (hr : r.Accepts Fits encode) :
    (Reader.array max r).Accepts (fun xs => Within max xs.length ∧ ∀ x ∈ xs, Fits x)
      (Wire.array encode) := by
  rw [Reader.array, ← varInt_min, ← Reader.array]
  exact (hr.array (by omega)).congr fun _ => and_congr_left' le_min_iff_within

end Reader

end BoundedVm
