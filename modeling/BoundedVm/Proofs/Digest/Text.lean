import BoundedVm.Digest.Basic
import Mathlib.Data.Bool.AllAny
import Mathlib.Data.List.Basic

/-! # Texts of digests

A digest is written in one way, `0x` and two lower-case digits for each byte, and read from a few more:
the mark may be missing, and the digits may be of either case. Between the digits and the bytes stand the
halves of the bytes: writing turns each half into a digit, and reading each digit into a half, so that
what is read is written as the digits that it was read from, in lower case.

* `Hex.decodeSized_eq_ok_iff`: the bytes that a row of digits stands for.
* `Digest.Spells`: the texts from which digests of a width are read.
* `Digest.ofText_exact`: those texts are read, and no others, each as the digest whose text is theirs in
  lower case. -/

namespace BoundedVm

namespace Hex

/-! ## Digits -/

/-- The hexadecimal digits of either case. Those of the lower case stand at the places of their
values. -/
def digits : List Char := "0123456789abcdefABCDEF".toList

/-- The value of a digit of either case. -/
def value (c : Char) : Nat := digits.idxOf c.toLower

theorem utf8EncodeChar_of_mem_digits :
    ∀ c ∈ digits, String.utf8EncodeChar c = [UInt8.ofNat c.toNat] :=
  List.all_iff_forall_prop.mp (by decide)

theorem digit?_of_mem_digits :
    ∀ c ∈ digits, digit? (UInt8.ofNat c.toNat) = some (value c) :=
  List.all_iff_forall_prop.mp (by decide)

theorem digitChar_value : ∀ c ∈ digits, digitChar (value c) = c.toLower :=
  List.all_iff_forall_prop.mp (by decide)

theorem value_lt : ∀ c ∈ digits, value c < 16 :=
  List.all_iff_forall_prop.mp (by decide)

theorem digitChar_mem_digits : ∀ n < 16, digitChar n ∈ digits := by
  decide

theorem value_digitChar : ∀ n < 16, value (digitChar n) = n := by
  decide

theorem ofNat_mem_digits :
    ∀ n < 128, (digit? (UInt8.ofNat n)).isSome = true → Char.ofNat n ∈ digits := by
  decide

theorem bounds_of_digit?_eq_some {b : UInt8} {n : Nat} (h : digit? b = some n) :
    n < 16 ∧ b.toNat < 128 := by
  simp only [digit?, UInt8.le_iff_toNat_le, UInt8.reduceToNat] at h
  split_ifs at h <;> simp at h <;> omega

/-- A character whose bytes are all digits is one byte long, and a digit itself. -/
theorem mem_digits_of_utf8EncodeChar {c : Char}
    (h : ∀ b ∈ String.utf8EncodeChar c, (digit? b).isSome = true) : c ∈ digits := by
  by_cases hc : c.toNat < 128
  · have hbyte : UInt8.ofNat c.toNat ∈ String.utf8EncodeChar c := by
      have hle : c.val.toNat ≤ 127 := Nat.le_of_lt_succ hc
      unfold String.utf8EncodeChar
      simp only [if_pos hle]
      exact List.mem_singleton_self _
    have hmem := ofNat_mem_digits c.toNat hc (h _ hbyte)
    rwa [Char.ofNat_toNat] at hmem
  · -- the last byte of a longer character is above all digits
    have hlast : UInt8.ofNat (c.val.toNat % 64 + 128) ∈ String.utf8EncodeChar c := by
      have hlt : ¬ c.val.toNat ≤ 127 := fun hle => hc (Nat.lt_succ_of_le hle)
      unfold String.utf8EncodeChar
      simp only [if_neg hlt]
      split_ifs <;> simp
    obtain ⟨n, hn⟩ := Option.isSome_iff_exists.mp (h _ hlast)
    have hbound := (bounds_of_digit?_eq_some hn).2
    rw [UInt8.toNat_ofNat'] at hbound
    omega

/-- A text of digits has one byte for each of them. -/
theorem utf8Bytes_of_digits {text : List Char} (h : ∀ c ∈ text, c ∈ digits) :
    utf8Bytes text = text.map fun c => UInt8.ofNat c.toNat := by
  induction text with
  | nil => rfl
  | cons c text ih =>
    obtain ⟨hc, htext⟩ := List.forall_mem_cons.mp h
    rw [utf8Bytes, List.flatMap_cons, utf8EncodeChar_of_mem_digits c hc, List.map_cons, ← ih htext]
    rfl

/-! ## Halves of bytes -/

/-- The halves of some bytes, the high one of each first. -/
def halves (bytes : List UInt8) : List Nat :=
  bytes.flatMap fun b => [b.toNat / 16, b.toNat % 16]

@[simp] theorem halves_nil : halves [] = [] := rfl

@[simp] theorem halves_cons (b : UInt8) (bytes : List UInt8) :
    halves (b :: bytes) = b.toNat / 16 :: b.toNat % 16 :: halves bytes := rfl

theorem length_halves (bytes : List UInt8) : (halves bytes).length = 2 * bytes.length := by
  induction bytes with
  | nil => rfl
  | cons b bytes ih => simp [ih]; omega

theorem lt_of_mem_halves {bytes : List UInt8} {n : Nat} (h : n ∈ halves bytes) : n < 16 := by
  obtain ⟨b, -, hb⟩ := List.mem_flatMap.mp h
  have hlt := b.toNat_lt
  simp at hb
  omega

/-- An even row of numbers below sixteen is the halves of some bytes. -/
theorem exists_halves_eq {size : Nat} {ns : List Nat} (hlen : ns.length = 2 * size)
    (hlt : ∀ n ∈ ns, n < 16) : ∃ bytes, halves bytes = ns := by
  induction size generalizing ns with
  | zero => exact ⟨[], (List.length_eq_zero_iff.mp hlen).symm⟩
  | succ size ih =>
    match ns with
    | [] => simp at hlen
    | [n] => simp at hlen; omega
    | high :: low :: ns =>
      have hhigh : high < 16 := hlt high (by simp)
      have hlow : low < 16 := hlt low (by simp)
      have hlen' : ns.length = 2 * size := by simp at hlen; omega
      obtain ⟨bytes, rfl⟩ := ih hlen' fun n hn => hlt n (by simp [hn])
      refine ⟨UInt8.ofNat (16 * high + low) :: bytes, ?_⟩
      rw [halves_cons, UInt8.toNat_ofNat']
      congr 1
      · omega
      · congr 1
        omega

/-- Writing turns each half into its digit. -/
theorem encode_eq_map (bytes : List UInt8) : encode bytes = (halves bytes).map digitChar := by
  induction bytes with
  | nil => rfl
  | cons b bytes ih => simp [ih]

theorem digitAt_eq_ok_iff {position n : Nat} {b : UInt8} :
    digitAt position b = .ok n ↔ digit? b = some n := by
  unfold digitAt
  split <;> simp_all

theorem digit?_of_digitAt_eq_error {position : Nat} {b : UInt8} {e : HexFault}
    (h : digitAt position b = .error e) : digit? b = none := by
  unfold digitAt at h
  split at h
  · cases h
  · assumption

/-- Reading pairs of digits turns each digit into its half. -/
theorem decodePairs_eq_ok_iff {position : Nat} {text bytes : List UInt8}
    (heven : text.length % 2 = 0) :
    decodePairs position text = .ok bytes ↔ text.map digit? = (halves bytes).map some := by
  fun_induction decodePairs position text generalizing bytes with
  | case1 position high low rest e he =>
    have hnone := digit?_of_digitAt_eq_error he
    cases bytes <;> simp [hnone]
  | case2 position high low rest h hh e he =>
    have hnone := digit?_of_digitAt_eq_error he
    cases bytes <;> simp [hnone]
  | case3 position high low rest h hh l hl ih =>
    have hh := digitAt_eq_ok_iff.1 hh
    have hl := digitAt_eq_ok_iff.1 hl
    have hhlt := (bounds_of_digit?_eq_some hh).1
    have hllt := (bounds_of_digit?_eq_some hl).1
    have hrest : rest.length % 2 = 0 := by simp at heven; omega
    constructor
    · intro hok
      cases htail : decodePairs (position + 2) rest with
      | error e => simp [htail, Except.map] at hok
      | ok tail =>
        simp only [htail, Except.map, Except.ok.injEq] at hok
        subst hok
        have hbyte : (UInt8.ofNat (16 * h + l)).toNat = 16 * h + l := by
          rw [UInt8.toNat_ofNat']
          omega
        have hdiv : (16 * h + l) / 16 = h := by omega
        have hmod : (16 * h + l) % 16 = l := by omega
        rw [List.map_cons, List.map_cons, hh, hl, (ih hrest).mp htail, halves_cons, hbyte, hdiv,
          hmod]
        rfl
    · intro hhalves
      cases bytes with
      | nil => simp at hhalves
      | cons b tail =>
        simp only [List.map_cons, halves_cons, List.cons.injEq, hh, hl, Option.some.injEq] at hhalves
        obtain ⟨rfl, rfl, htail⟩ := hhalves
        rw [(ih hrest).mpr htail]
        have hbyte : 16 * (b.toNat / 16) + b.toNat % 16 = b.toNat := Nat.div_add_mod b.toNat 16
        simp [Except.map, hbyte]
  | case4 text position hne =>
    rcases text with _ | ⟨high, _ | ⟨low, rest⟩⟩
    · cases bytes <;> simp
    · simp at heven
    · exact absurd rfl (hne high low rest)

/-! ## Rows of digits -/

/-- A text of the right length is read by pairs. -/
theorem decodeSized_eq_ok_iff_decodePairs {size : Nat} {text : List Char} {bytes : List UInt8} :
    decodeSized size text = .ok bytes
      ↔ (utf8Bytes text).length = 2 * size ∧ decodePairs 0 (utf8Bytes text) = .ok bytes := by
  simp only [decodeSized]
  by_cases hlen : (utf8Bytes text).length = 2 * size
  · rw [if_neg (by omega), if_neg (by omega)]
    simp [hlen]
  · split_ifs <;> simp [hlen]

/-- The digits of a text are read as their values. -/
theorem map_digit?_utf8Bytes {text : List Char} (htext : ∀ c ∈ text, c ∈ digits) :
    (utf8Bytes text).map digit? = (text.map value).map some := by
  rw [utf8Bytes_of_digits htext, List.map_map, List.map_map]
  exact List.map_congr_left fun c hc => digit?_of_mem_digits c (htext c hc)

/-- A text is read if it is a row of digits, two for each byte, and the values of the digits are the
halves of the bytes. -/
theorem decodeSized_eq_ok_iff {size : Nat} {text : List Char} {bytes : List UInt8} :
    decodeSized size text = .ok bytes
      ↔ text.length = 2 * size ∧ (∀ c ∈ text, c ∈ digits) ∧ halves bytes = text.map value := by
  have hsome : Function.Injective (List.map (some : Nat → Option Nat)) :=
    List.map_injective_iff.mpr fun _ _ h => Option.some.inj h
  rw [decodeSized_eq_ok_iff_decodePairs]
  constructor
  · rintro ⟨hlen, hpairs⟩
    have hvalues := (decodePairs_eq_ok_iff (by omega)).mp hpairs
    have htext : ∀ c ∈ text, c ∈ digits := by
      intro c hc
      refine mem_digits_of_utf8EncodeChar fun b hb => ?_
      have hmem : digit? b ∈ (utf8Bytes text).map digit? :=
        List.mem_map_of_mem (List.mem_flatMap.mpr ⟨c, hc, hb⟩)
      rw [hvalues] at hmem
      obtain ⟨n, -, hn⟩ := List.mem_map.mp hmem
      rw [← hn]
      rfl
    rw [map_digit?_utf8Bytes htext] at hvalues
    rw [utf8Bytes_of_digits htext, List.length_map] at hlen
    exact ⟨hlen, htext, (hsome hvalues).symm⟩
  · rintro ⟨hlen, htext, hhalves⟩
    have hcount : (utf8Bytes text).length = 2 * size := by
      rw [utf8Bytes_of_digits htext, List.length_map, hlen]
    refine ⟨hcount, (decodePairs_eq_ok_iff (by omega)).mpr ?_⟩
    rw [map_digit?_utf8Bytes htext, hhalves]

/-- What is read from a row of digits is written in lower case. -/
theorem encode_of_halves_eq {text : List Char} {bytes : List UInt8}
    (htext : ∀ c ∈ text, c ∈ digits) (h : halves bytes = text.map value) :
    encode bytes = text.map Char.toLower := by
  rw [encode_eq_map, h, List.map_map]
  exact List.map_congr_left fun c hc => digitChar_value c (htext c hc)

/-- Every row of digits of the right length is read. -/
theorem exists_decodeSized_eq_ok {size : Nat} {text : List Char} (hlen : text.length = 2 * size)
    (htext : ∀ c ∈ text, c ∈ digits) : ∃ bytes, decodeSized size text = .ok bytes := by
  have hlt : ∀ n ∈ text.map value, n < 16 := by
    intro n hn
    obtain ⟨c, hc, rfl⟩ := List.mem_map.mp hn
    exact value_lt c (htext c hc)
  obtain ⟨bytes, hbytes⟩ := exists_halves_eq (by rw [List.length_map, hlen]) hlt
  exact ⟨bytes, decodeSized_eq_ok_iff.2 ⟨hlen, htext, hbytes⟩⟩

/-- What bytes are written as is read as these bytes. -/
theorem decodeSized_encode (bytes : List UInt8) :
    decodeSized bytes.length (encode bytes) = .ok bytes := by
  have hlt : ∀ n ∈ halves bytes, n < 16 := fun n => lt_of_mem_halves
  rw [decodeSized_eq_ok_iff, encode_eq_map, List.length_map, length_halves, List.map_map]
  refine ⟨rfl, fun c hc => ?_, ?_⟩
  · obtain ⟨n, hn, rfl⟩ := List.mem_map.mp hc
    exact digitChar_mem_digits n (hlt n hn)
  · have hid : (halves bytes).map (value ∘ digitChar) = (halves bytes).map id :=
      List.map_congr_left fun n hn => value_digitChar n (hlt n hn)
    rw [hid, List.map_id]

/-! ## Marks -/

theorem dropMark_of_digits {text : List Char} (htext : ∀ c ∈ text, c ∈ digits) :
    dropMark text = text := by
  unfold dropMark
  split
  · exact absurd (htext 'x' (by simp)) (by decide)
  · rfl

theorem eq_dropMark_or (source : List Char) :
    source = dropMark source ∨ source = '0' :: 'x' :: dropMark source := by
  unfold dropMark
  split
  · exact .inr rfl
  · exact .inl rfl

end Hex

namespace Digest

variable {width : Nat}

/-- Whether a text spells a digest of some width by a row of digits: it is the row itself or begins with
one mark, and the row has two digits for each byte. -/
structure Spells (width : Nat) (digits source : List Char) : Prop where
  source_eq : source = digits ∨ source = '0' :: 'x' :: digits
  length_eq : digits.length = 2 * width
  mem_digits : ∀ c ∈ digits, c ∈ Hex.digits

/-- A row of digits is told from its mark, which is no row of digits. -/
theorem Spells.dropMark_eq {digits source : List Char} (h : Spells width digits source) :
    Hex.dropMark source = digits := by
  rcases h.source_eq with rfl | rfl
  · exact Hex.dropMark_of_digits h.mem_digits
  · rfl

theorem ofText_eq_ok_iff {source : List Char} {d : Digest width} :
    ofText source = .ok d
      ↔ Hex.decodeSized width (Hex.dropMark source) = .ok d.bytes.reverse := by
  unfold ofText
  split
  · rename_i e he
    simp [he]
  · rename_i bytes hbytes
    simp only [hbytes, Except.ok.injEq, Digest.ext_iff]
    exact List.reverse_eq_iff

/-- What is read from a text is spelled there, and is written as the same digits in lower case. -/
theorem exists_spells_of_ofText_eq_ok {source : List Char} {d : Digest width}
    (h : ofText source = .ok d) :
    Spells width (Hex.dropMark source) source ∧
      d.text = String.ofList ('0' :: 'x' :: (Hex.dropMark source).map Char.toLower) := by
  obtain ⟨hlen, hmem, hhalves⟩ := Hex.decodeSized_eq_ok_iff.1 (ofText_eq_ok_iff.1 h)
  refine ⟨⟨Hex.eq_dropMark_or source, hlen, hmem⟩, ?_⟩
  rw [text, Hex.encode_of_halves_eq hmem hhalves]

theorem Spells.exists_ofText_eq_ok {digits source : List Char} (h : Spells width digits source) :
    ∃ d : Digest width, ofText source = .ok d := by
  obtain ⟨bytes, hbytes⟩ := Hex.exists_decodeSized_eq_ok h.length_eq h.mem_digits
  refine ⟨⟨bytes.reverse, ?_⟩, ofText_eq_ok_iff.2 ?_⟩
  · rw [List.length_reverse, Hex.length_of_decodeSized hbytes]
  · rw [h.dropMark_eq, List.reverse_reverse, hbytes]

/-- A digest is read back from its text. -/
theorem ofText_text (d : Digest width) : ofText d.text.toList = .ok d := by
  have hdecode := Hex.decodeSized_encode d.bytes.reverse
  rw [List.length_reverse, d.length_bytes] at hdecode
  rw [ofText_eq_ok_iff, text, String.toList_ofList]
  exact hdecode

/-- The text of a digest begins with its last byte. -/
theorem text_of_getLast? {d : Digest width} {last : UInt8} (hlast : d.bytes.getLast? = some last) :
    ∃ rest, d.text = String.ofList
      ('0' :: 'x' :: Hex.digitChar (last.toNat / 16) :: Hex.digitChar (last.toNat % 16) :: rest) := by
  obtain ⟨front, hbytes⟩ := List.getLast?_eq_some_iff.mp hlast
  refine ⟨Hex.encode front.reverse, ?_⟩
  rw [text, hbytes, List.reverse_append, List.reverse_singleton, List.singleton_append,
    Hex.encode_cons]

/-- **Texts of digests.** A text is read as a digest if it spells one, and the digest is written as the
digits spelled, in lower case and after a mark; any other text is refused. Every digest is read back from
its text, whose first two digits are the last byte. -/
theorem ofText_exact (width : Nat) :
    (∀ source digits, Spells width digits source →
      ∃ d : Digest width, ofText source = .ok d ∧
        d.text = String.ofList ('0' :: 'x' :: digits.map Char.toLower)) ∧
    (∀ source, (∀ digits, ¬ Spells width digits source) →
      ∃ fault, (ofText source : Except HexFault (Digest width)) = .error fault) ∧
    ∀ d : Digest width, ofText d.text.toList = .ok d ∧
      ∀ last ∈ d.bytes.getLast?, ∃ high low rest,
        d.text = String.ofList ('0' :: 'x' :: high :: low :: rest) ∧
          16 * Hex.value high + Hex.value low = last.toNat := by
  refine ⟨fun source digits hspells => ?_, fun source hnone => ?_,
    fun d => ⟨ofText_text d, fun last hlast => ?_⟩⟩
  · obtain ⟨d, hd⟩ := hspells.exists_ofText_eq_ok
    have htext := (exists_spells_of_ofText_eq_ok hd).2
    rw [hspells.dropMark_eq] at htext
    exact ⟨d, hd, htext⟩
  · cases hread : (ofText source : Except HexFault (Digest width)) with
    | error fault => exact ⟨fault, rfl⟩
    | ok d => exact absurd (exists_spells_of_ofText_eq_ok hread).1 (hnone _)
  · obtain ⟨rest, htext⟩ := text_of_getLast? hlast
    have hlt := last.toNat_lt
    refine ⟨_, _, rest, htext, ?_⟩
    rw [Hex.value_digitChar _ (by omega), Hex.value_digitChar _ (by omega)]
    exact Nat.div_add_mod last.toNat 16

/-- Digits of both cases are read, and a mark in the upper case is no mark. -/
theorem ofText_exact_mixedCase :
    Spells 2 ['0', 'a', 'F', 'f'] ['0', 'x', '0', 'a', 'F', 'f'] ∧
      (∃ d : Digest 2, ofText ['0', 'x', '0', 'a', 'F', 'f'] = .ok d ∧
        d.text = String.ofList ['0', 'x', '0', 'a', 'f', 'f']) ∧
      (∀ digits, ¬ Spells 2 digits ['0', 'X', 'f', 'F']) ∧
      (∃ fault, (ofText ['0', 'X', 'f', 'F'] : Except HexFault (Digest 2)) = .error fault) ∧
      ∃ high low rest,
        text (⟨[0xFF, 0x0A], rfl⟩ : Digest 2) = String.ofList ('0' :: 'x' :: high :: low :: rest) ∧
          16 * Hex.value high + Hex.value low = 0x0A := by
  have hspells : Spells 2 ['0', 'a', 'F', 'f'] ['0', 'x', '0', 'a', 'F', 'f'] :=
    ⟨.inr rfl, rfl, List.all_iff_forall_prop.mp (by decide)⟩
  have hnone : ∀ digits, ¬ Spells 2 digits ['0', 'X', 'f', 'F'] := by
    intro digits h
    rcases h.source_eq with rfl | heq
    · have hmark : 'X' ∈ Hex.digits := h.mem_digits 'X' (by simp)
      exact absurd hmark (by decide)
    · simp at heq
  obtain ⟨hread, hrefused, hback⟩ := ofText_exact 2
  exact ⟨hspells, hread _ _ hspells, hnone, hrefused _ hnone,
    (hback ⟨[0xFF, 0x0A], rfl⟩).2 0x0A rfl⟩

/-- Only one mark is taken off. -/
example : (ofText "0x0x00".toList : Except HexFault (Digest 2)) = .error (.badDigit 120 1) := by
  rfl

end Digest

end BoundedVm
