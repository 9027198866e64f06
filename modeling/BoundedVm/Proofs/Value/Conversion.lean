import BoundedVm.Heap.Convert
import BoundedVm.Proofs.Release.Order
import BoundedVm.Proofs.Value.MinimalForm

/-! # Conversions and coercions

A value has a truth value and may stand for an integer, whatever its kind. Both are computed from what
the value is made of: from its bytes, from its number, or they are stored. A conversion changes the kind,
and what is computed afterwards is the same.

* `Heap.Conversion`: what a conversion that is not refused hands out and leaves.
* `Heap.ConvertsTo`: a row of conversions, each on a heap of its own.
* `Heap.Converted`: what a conversion does to a heap.
* `Heap.conversions_cohere`: rows of conversions, single ones, and the heaps that they leave. -/

namespace BoundedVm

/-! ## Zero -/

theorem LittleEndian.decode_eq_zero_iff {bytes : List UInt8} :
    decode bytes = 0 ↔ bytes.any (· != 0) = false := by
  induction bytes with
  | nil => exact iff_of_true rfl rfl
  | cons b bytes ih =>
    have hb : b.toNat = 0 ↔ (b != 0) = false := by
      rw [bne_eq_false_iff_eq, ← UInt8.toNat_inj]
      rfl
    rw [decode_cons, List.any_cons, Bool.or_eq_false_iff, ← ih, ← hb]
    omega

/-- Bytes stand for zero, whatever their sign, if all of them are zero. -/
theorem TwosComplement.decode_eq_zero_iff {bytes : List UInt8} :
    decode bytes = 0 ↔ bytes.any (· != 0) = false := by
  have hlt := LittleEndian.decode_lt bytes
  rw [← LittleEndian.decode_eq_zero_iff]
  simp only [decode]
  split <;> omega

/-- Bytes from which an integer is read have its truth value. -/
theorem bytesToBool_of_ofBytes {bytes : List UInt8} {i : Integer}
    (hi : Integer.ofBytes bytes = .ok i) : bytesToBool bytes = .ok i.toBool := by
  have hlen : ¬ bytes.length > maxIntegerSize := by
    intro hlong
    rw [Integer.ofBytes, if_pos hlong] at hi
    cases hi
  have htruth : i.toBool = bytes.any (· != 0) := by
    have hzero : i.value = 0 ↔ bytes.any (· != 0) = false := by
      rw [Integer.value_of_ofBytes_eq_ok hi, TwosComplement.decode_eq_zero_iff]
    rw [Integer.toBool, Integer.isZero, Bool.not_eq_eq_eq_not, Bool.eq_iff_iff, decide_eq_true_iff,
      hzero, Bool.not_eq_true']
  rw [bytesToBool, if_neg hlen, htruth]

theorem Integer.ofBytes_bit (b : Bool) : ofBytes [if b then 1 else 0] = .ok (ofBool b) := by
  cases b <;> decide

theorem Integer.toBool_ofBool (b : Bool) : (ofBool b).toBool = b := by
  cases b <;> decide

namespace Heap

variable {h h' : Heap} {held : List Item} {x y : Item} {target : Kind}

/-! ## One conversion -/

/-- What a conversion that is not refused hands out, and the heap that it leaves. -/
inductive Conversion (h : Heap) : Item → Kind → Item → Heap → Prop
  | same (x : Item) : Conversion h x x.kind x (h.share 1 x)
  | truthOfInteger (a : Nat) (i : Integer) :
    Conversion h (.integer a i) .boolean (.boolean i.toBool) h
  | bytesOfInteger (a : Nat) (i : Integer) : Conversion h (.integer a i) .byteString
    (h.newBytes i.bytes).1 (h.newBytes i.bytes).2
  | integerOfTruth (b : Bool) : Conversion h (.boolean b) .integer
    (h.newInteger (.ofBool b)).1 (h.newInteger (.ofBool b)).2
  | bytesOfTruth (b : Bool) : Conversion h (.boolean b) .byteString
    (h.newBytes [if b then 1 else 0]).1 (h.newBytes [if b then 1 else 0]).2
  | truthOfBytes (a : Nat) {content : List UInt8} {b : Bool} (hb : bytesToBool content = .ok b) :
    Conversion h (.bytes a content) .boolean (.boolean b) h
  | integerOfBytes (a : Nat) {content : List UInt8} {i : Integer}
    (hi : Integer.ofBytes content = .ok i) :
    Conversion h (.bytes a content) .integer (h.newInteger i).1 (h.newInteger i).2
  | truthOfPointer (script position : Nat) :
    Conversion h (.pointer script position) .boolean (.boolean true) h
  | arrayOfStruct {s c : ContainerId} {h' : Heap} (hs : h.toArray s = (.ok c, h')) :
    Conversion h (.struct s) .array (.array c) h'

theorem conversion_of_eq_ok (hy : h.convert x target = (.ok y, h')) :
    Conversion h x target y h' := by
  unfold convert at hy
  split at hy
  · rename_i hkind
    subst hkind
    cases hy
    exact .same x
  · split at hy
    · cases hy
      exact .truthOfInteger _ _
    · cases hy
      exact .bytesOfInteger _ _
    · cases hy
      exact .integerOfTruth _
    · cases hy
      exact .bytesOfTruth _
    · rename_i content _
      cases hb : bytesToBool content <;> rw [hb] at hy <;> cases hy
      exact .truthOfBytes _ hb
    · split at hy <;> cases hy
      exact .integerOfBytes _ ‹_›
    · cases hy
      exact .truthOfPointer _ _
    · split at hy <;> cases hy
      exact .arrayOfStruct ‹_›
    · cases hy

/-- A conversion keeps the truth value. -/
theorem Conversion.toBool_eq (hy : Conversion h x target y h') : y.toBool = x.toBool := by
  cases hy with
  | same | truthOfInteger | truthOfPointer | arrayOfStruct => rfl
  | bytesOfInteger a i => exact bytesToBool_of_ofBytes i.hasMinimalForm.ofBytes_bytes
  | integerOfTruth b => exact congrArg Except.ok (Integer.toBool_ofBool b)
  | bytesOfTruth b =>
    have hbit := bytesToBool_of_ofBytes (Integer.ofBytes_bit b)
    rwa [Integer.toBool_ofBool] at hbit
  | truthOfBytes a hb => exact hb.symm
  | integerOfBytes a hi => exact (bytesToBool_of_ofBytes hi).symm

/-- A conversion to a kind other than that of truth values keeps the integer, unless a struct becomes an
array. -/
theorem Conversion.toInteger_eq (hy : Conversion h x target y h') (hboolean : target ≠ .boolean)
    (harray : target ≠ .array) : y.toInteger = x.toInteger := by
  cases hy with
  | same | integerOfTruth => rfl
  | truthOfInteger | truthOfBytes | truthOfPointer => exact absurd rfl hboolean
  | arrayOfStruct => exact absurd rfl harray
  | bytesOfInteger a i => exact i.hasMinimalForm.ofBytes_bytes
  | bytesOfTruth b => exact Integer.ofBytes_bit b
  | integerOfBytes a hi => exact hi.symm

/-- Values that hold no other ones are converted to their truth value, or refused as it is. -/
theorem convert_boolean_eq
    (hkind : x.kind ∈ [Kind.boolean, Kind.integer, Kind.byteString, Kind.pointer]) :
    (h.convert x .boolean).1 = x.toBool.map Item.boolean := by
  cases x with
  | null | array | struct => simp [Item.kind] at hkind
  | boolean | integer | bytes | pointer => rfl

/-- Every value is converted to the integer that it stands for, or refused as that is. -/
theorem number?_convert_integer :
    (h.convert x .integer).1.map Item.number? = x.toInteger.map fun i => some i.value := by
  cases x with
  | bytes allocation content =>
    have hkind : (Item.bytes allocation content).kind ≠ .integer := Kind.noConfusion
    simp only [convert, if_neg hkind, Item.toInteger]
    cases Integer.ofBytes content <;> rfl
  | null | boolean | integer | pointer | array | struct => rfl

theorem number?_integerOf :
    (h.integerOf x).1.map Item.number? = x.toInteger.map fun i => some i.value := by
  unfold integerOf
  split
  · rfl
  · split
    · rename_i hi
      rw [hi]
      rfl
    · rename_i he
      rw [he]
      rfl

/-! ## Conversions in a row -/

/-- Conversions to some kinds, one after the other, lead from a value to another one. Each of them may be
made on a heap of its own. -/
inductive ConvertsTo : Item → List Kind → Item → Prop
  | refl (x : Item) : ConvertsTo x [] x
  | step {x y z : Item} {target : Kind} {targets : List Kind} (h : Heap)
    (hy : (h.convert x target).1 = .ok y) (hz : ConvertsTo y targets z) :
    ConvertsTo x (target :: targets) z

variable {targets : List Kind}

theorem ConvertsTo.toBool_eq (hy : ConvertsTo x targets y) : y.toBool = x.toBool := by
  induction hy with
  | refl => rfl
  | step h hy hz ih => exact ih.trans (conversion_of_eq_ok (Prod.ext hy rfl)).toBool_eq

theorem ConvertsTo.toInteger_eq (hy : ConvertsTo x targets y) (hboolean : .boolean ∉ targets)
    (harray : .array ∉ targets) : y.toInteger = x.toInteger := by
  induction hy with
  | refl => rfl
  | step h hy hz ih =>
    rw [List.mem_cons, not_or] at hboolean harray
    have hconversion := conversion_of_eq_ok (Prod.ext (y := (_, _)) hy rfl)
    have hfirst := hconversion.toInteger_eq (Ne.symm hboolean.1) (Ne.symm harray.1)
    exact (ih hboolean.2 harray.2).trans hfirst

/-! ## The heap after a conversion -/

/-- What a conversion does to a heap, by its outcome. -/
inductive Converted (x : Item) (target : Kind) (h : Heap) : Except ValueFault Item × Heap → Prop
  /-- A refusal changes nothing. -/
  | refused (e : ValueFault) : Converted x target h (.error e, h)
  /-- No tracker is told of anything, and the containers are those that there were. They hold what they
  held; if one of them is handed out, it counts one handle more. -/
  | value {y : Item} {h' : Heap} (hother : x.isStruct = true → target ≠ .array)
    (hkind : y.kind = target) (hcreated : h'.created = h.created)
    (htrackers : h'.trackers = h.trackers)
    (hcontainers : ∀ c, h'.container? c
      = (h.container? c).map fun k => { k with handles := k.handles + handlesTo c [y] }) :
    Converted x target h (.ok y, h')
  /-- A struct has become an array, which is the only new container. It has one handle and holds the
  elements of the struct, whose tracker registers it. -/
  | array {s : ContainerId} {h' : Heap} {account : Tracker} (registry : Array ContainerId)
    (hstruct : x = .struct s) (htarget : target = .array) (hcreated : h'.created = h.created + 1)
    (hmade : h'.container? h.created = some ⟨h.items s, h.owner s, 1⟩)
    (hcontainers : ∀ c ≠ h.created, h'.container? c
      = (h.container? c).map fun k =>
        { k with handles := k.handles + handlesTo c (h.items s).toList })
    (hbefore : h.tracker? (h.owner s) = some account) (hroom : account.live < account.limit)
    (hafter : h'.tracker? (h.owner s)
      = some ⟨account.limit, account.live + 1, max account.peak (account.live + 1), registry⟩)
    (htrackers : ∀ t ≠ h.owner s, h'.tracker? t = h.tracker? t) :
    Converted x target h (.ok (.array h.created), h')

theorem converted_share : Converted x x.kind h (.ok x, h.share 1 x) := by
  refine .value (fun hstruct => ?_) rfl (created_share 1 x) ?_ fun c => ?_
  · obtain ⟨s, rfl⟩ := Item.isStruct_iff.1 hstruct
    exact Kind.noConfusion
  · exact Array.ext_getElem? (tracker?_share 1 x)
  · rw [container?_share, Nat.one_mul]

/-- What holds no other values is made beside the containers. -/
theorem converted_leaf (hy : y.container? = none) (hkind : y.kind = target)
    (hcreated : h'.containers = h.containers) (htrackers : h'.trackers = h.trackers) :
    Converted x target h (.ok y, h') := by
  refine .value (fun _ harray => ?_) hkind (congrArg Array.size hcreated) htrackers fun c => ?_
  · rw [harray] at hkind
    cases y <;> cases hkind
    cases hy
  · have hne : y.container? ≠ some c := by
      rw [hy]
      exact (Option.some_ne_none c).symm
    rw [handlesTo_cons_of_ne hne, container?, container?, hcreated]
    cases h.containers[c]?.join <;> rfl

theorem converted_toArray {s c : ContainerId} (hs : h.toArray s = (.ok c, h')) :
    Converted (.struct s) .array h (.ok (.array c), h') := by
  obtain ⟨⟨account, hbefore, hroom⟩, rfl, rfl⟩ := create_eq_ok_iff.1 hs
  obtain ⟨registry, hafter⟩ := exists_tracker?_enroll hbefore (h.items s)
  rw [tracker?_shareAll] at hbefore
  have hcreated := created_shareAll (h.items s).toList h
  rw [hcreated]
  refine .array registry rfl rfl ?_ ?_ (fun c hc => ?_) hbefore hroom hafter fun t ht => ?_
  · rw [created_enroll, hcreated]
  · rw [container?_enroll, hcreated, if_pos rfl]
  · rw [container?_enroll, hcreated, if_neg hc, container?_shareAll]
  · rw [tracker?_enroll_of_ne (Ne.symm ht), tracker?_shareAll]

/-- What a conversion that is not refused does. -/
theorem Conversion.converted (hy : Conversion h x target y h') :
    Converted x target h (.ok y, h') := by
  cases hy with
  | same => exact converted_share
  | arrayOfStruct hs => exact converted_toArray hs
  | truthOfInteger | bytesOfInteger | integerOfTruth | bytesOfTruth | truthOfBytes | integerOfBytes
    | truthOfPointer => exact converted_leaf rfl rfl rfl rfl

/-- A refused conversion leaves a reachable heap as it was, also if it has made handles for an array. -/
theorem Reachable.converted (hr : h.Reachable held) (x : Item) (target : Kind) :
    Converted x target h (h.convert x target) := by
  cases hout : h.convert x target with
  | mk result h' =>
    cases result with
    | ok y => exact (conversion_of_eq_ok hout).converted
    | error e =>
      rcases Call.eq_of_convert_eq_error hout with rfl | ⟨s, rfl⟩
      · exact .refused e
      · rw [Call.shareAndRelease,
          hr.release_shareAll fun _ hx => .inr ⟨s, Array.mem_toList_iff.mp hx⟩]
        exact .refused e

/-- **Conversions and coercions cohere.** However many conversions lead from a value to another one, both
have the same truth value, or the same refusal of one; and they stand for the same integer, or are
refused alike, if no truth value and no array has been made on the way. A value is converted to an
integer exactly if it stands for one, and a value without elements to a truth value as it has one. On a
reachable heap no conversion changes a container or a tracker, except that a struct gives a new array with
handles to the same elements. -/
theorem conversions_cohere :
    (∀ x targets y, ConvertsTo x targets y → y.toBool = x.toBool
      ∧ (.boolean ∉ targets → .array ∉ targets → y.toInteger = x.toInteger))
    ∧ (∀ (h : Heap) (x : Item),
      (h.convert x .integer).1.map Item.number? = (x.toInteger.map fun i => some i.value)
      ∧ (h.integerOf x).1.map Item.number? = x.toInteger.map fun i => some i.value)
    ∧ (∀ (h : Heap) (x : Item), x.kind ∈ [Kind.boolean, Kind.integer, Kind.byteString, Kind.pointer] →
      (h.convert x .boolean).1 = x.toBool.map Item.boolean)
    ∧ ∀ (h : Heap) (held : List Item), h.Reachable held →
      ∀ x target, Converted x target h (h.convert x target) :=
  ⟨fun _ _ _ hy => ⟨hy.toBool_eq, hy.toInteger_eq⟩,
    fun _ _ => ⟨number?_convert_integer, number?_integerOf⟩, fun _ _ => convert_boolean_eq,
    fun _ _ hr => hr.converted⟩

/-- Padded bytes are converted to a number and this to its shortest bytes. A struct becomes an array while
its tracker has room, and is refused when the array has taken the last of it. -/
theorem conversions_cohere_nested :
    (∃ y, ConvertsTo (.bytes 0 [5, 0, 0]) [.integer, .byteString] y ∧ y.kind = .byteString
      ∧ y.toBool = .ok true ∧ y.toInteger = Integer.ofInt 5)
    ∧ Converted (.struct 1) .array nested (nested.convert (.struct 1) .array)
    ∧ (nested.convert (.struct 1) .array).1 = .ok (.array 2)
    ∧ Converted (.struct 1) .array (nested.convert (.struct 1) .array).2
      ((nested.convert (.struct 1) .array).2.convert (.struct 1) .array)
    ∧ ((nested.convert (.struct 1) .array).2.convert (.struct 1) .array).1
      = .error (.tooManyContainers 3) := by
  obtain ⟨hchains, -, -, hheaps⟩ := conversions_cohere
  have hok : (nested.convert (.struct 1) .array).1 = .ok (.array 2) := by cbv
  have hreachable : Reachable (nested.convert (.struct 1) .array).2 ([.array 2] ++ [.struct 1]) := by
    have hleaves := invariant_reachable.convert trivial reachable_nested List.mem_cons_self .array
    rwa [Prod.ext (y := (_, _)) hok rfl] at hleaves
  refine ⟨?_, hheaps _ _ reachable_nested _ _, hok, hheaps _ _ hreachable _ _, by cbv⟩
  have hlast : ConvertsTo (.integer 0 (.ofNative (.u8 5))) [.byteString] (.bytes 1 [5]) :=
    .step Heap.empty.allocate.2 (by decide) (.refl _)
  have hchain : ConvertsTo (.bytes 0 [5, 0, 0]) [.integer, .byteString] (.bytes 1 [5]) :=
    .step Heap.empty (by decide) hlast
  obtain ⟨htruth, hnumber⟩ := hchains _ _ _ hchain
  exact ⟨_, hchain, rfl, htruth, hnumber (by decide) (by decide)⟩

end Heap

end BoundedVm
