import BoundedVm.Value.Limits
import Mathlib.Data.List.TakeWhile
import Mathlib.Data.Nat.Digits.Defs

/-! # Limits from the environment

A setting of the environment is a number of 32 bits in decimal digits, which may have a plus sign in front
and blanks at both ends. What the settings are refused for is decided in a fixed order: first the text of
the stack size, then that of the comparable size, then the numbers themselves, of which none may be zero.

* `Decimal.Writes`: the grammar of the settings, with the number that each text of it writes.
* `Limits.setting?_eq_some_iff`: a setting is read if and only if it is of the grammar and within 32 bits.
* `Limits.ofEnvironment_exact`: the limits that two settings give, and why others are refused. -/

namespace BoundedVm

/-! ## Trimming -/

/-- What is cut off a text are blanks. -/
theorem exists_eq_append_trim (text : List Char) : ∃ before after,
    text = before ++ trim text ++ after ∧ (∀ c ∈ before, isBlank c = true) ∧
      ∀ c ∈ after, isBlank c = true := by
  let kept := text.dropWhile isBlank
  have hright : trim text ++ (kept.reverse.takeWhile isBlank).reverse = kept := by
    rw [trim, ← List.reverse_append, List.takeWhile_append_dropWhile, List.reverse_reverse]
  refine ⟨text.takeWhile isBlank, (kept.reverse.takeWhile isBlank).reverse, ?_,
    fun c hc => List.mem_takeWhile_imp hc,
    fun c hc => List.mem_takeWhile_imp (List.mem_reverse.mp hc)⟩
  rw [List.append_assoc, hright, List.takeWhile_append_dropWhile]

/-- Without a blank in front there is nothing to cut off. -/
theorem dropWhile_isBlank_append {core : List Char} (hcore : ∀ c ∈ core, isBlank c = false)
    (hne : core ≠ []) (rest : List Char) : (core ++ rest).dropWhile isBlank = core ++ rest := by
  obtain ⟨c, core, rfl⟩ := List.exists_cons_of_ne_nil hne
  rw [List.cons_append, List.dropWhile_cons_of_neg]
  rw [hcore c List.mem_cons_self]
  exact Bool.false_ne_true

/-- A text without blanks is found again between blanks. -/
theorem trim_append {before core after : List Char} (hbefore : ∀ c ∈ before, isBlank c = true)
    (hcore : ∀ c ∈ core, isBlank c = false) (hne : core ≠ [])
    (hafter : ∀ c ∈ after, isBlank c = true) : trim (before ++ core ++ after) = core := by
  have hreverse : ∀ c ∈ core.reverse, isBlank c = false :=
    fun c hc => hcore c (List.mem_reverse.mp hc)
  have hstop := dropWhile_isBlank_append hreverse (by simpa using hne) []
  rw [List.append_nil] at hstop
  rw [trim, List.append_assoc, List.dropWhile_append_of_pos hbefore,
    dropWhile_isBlank_append hcore hne, List.reverse_append,
    List.dropWhile_append_of_pos (fun c hc => hafter c (List.mem_reverse.mp hc)), hstop,
    List.reverse_reverse]

/-! ## Decimal numbers -/

namespace Decimal

/-- Whether a character is an ASCII decimal digit. -/
def IsDigit (c : Char) : Prop :=
  '0' ≤ c ∧ c ≤ '9'

instance : DecidablePred IsDigit :=
  fun c => inferInstanceAs (Decidable ('0' ≤ c ∧ c ≤ '9'))

/-- The number that decimal digits write, the highest one first. -/
def value (digits : List Char) : Nat :=
  Nat.ofDigits 10 (digits.reverse.map fun c => c.toNat - '0'.toNat)

/-- The texts of one or more decimal digits after at most one plus sign and between blanks, each with the
number that it writes. -/
inductive Writes : List Char → Nat → Prop
  | intro {before sign digits after : List Char} (hbefore : ∀ c ∈ before, isBlank c = true)
    (hsign : sign = [] ∨ sign = ['+']) (hne : digits ≠ []) (hdigits : ∀ c ∈ digits, IsDigit c)
    (hafter : ∀ c ∈ after, isBlank c = true) :
    Writes (before ++ (sign ++ digits) ++ after) (value digits)

@[simp] theorem value_nil : value [] = 0 := rfl

theorem value_cons (c : Char) (digits : List Char) :
    value (c :: digits) = value digits + 10 ^ digits.length * (c.toNat - '0'.toNat) := by
  simp [value, Nat.ofDigits_append]

theorem digit?_eq_some_iff {c : Char} {d : Nat} :
    digit? c = some d ↔ IsDigit c ∧ d = c.toNat - '0'.toNat := by
  unfold digit?
  by_cases hc : '0' ≤ c ∧ c ≤ '9'
  · simp [IsDigit, hc, eq_comm]
  · simp [IsDigit, hc]

/-- Digits are read to the number that they write, after the one read before them. -/
theorem readDigits_eq_some_iff {acc n : Nat} {text : List Char} :
    readDigits acc text = some n
      ↔ (∀ c ∈ text, IsDigit c) ∧ n = value text + 10 ^ text.length * acc := by
  induction text generalizing acc with
  | nil => simp [readDigits, eq_comm]
  | cons c text ih =>
    have hvalue : value text + 10 ^ text.length * (10 * acc + (c.toNat - '0'.toNat))
        = value (c :: text) + 10 ^ (text.length + 1) * acc := by
      rw [value_cons]
      ring
    simp only [readDigits, Option.bind_eq_some_iff, digit?_eq_some_iff, ih]
    constructor
    · rintro ⟨d, ⟨hc, rfl⟩, htext, rfl⟩
      exact ⟨List.forall_mem_cons.mpr ⟨hc, htext⟩, hvalue⟩
    · rintro ⟨hall, rfl⟩
      obtain ⟨hc, htext⟩ := List.forall_mem_cons.mp hall
      exact ⟨_, ⟨hc, rfl⟩, htext, hvalue.symm⟩

theorem readNat?_eq_some_iff {n : Nat} {text : List Char} :
    readNat? text = some n ↔ text ≠ [] ∧ (∀ c ∈ text, IsDigit c) ∧ n = value text := by
  cases text with
  | nil => simp [readNat?]
  | cons c text => simp [readNat?, readDigits_eq_some_iff]

/-- A plus sign in front does not show in the number that is read. -/
theorem readBelow?_eq_some_iff {bound n : Nat} {text : List Char} :
    readBelow? bound text = some n ↔ n < bound ∧ ∃ sign digits, text = sign ++ digits ∧
      (sign = [] ∨ sign = ['+']) ∧ digits ≠ [] ∧ (∀ c ∈ digits, IsDigit c) ∧ n = value digits := by
  simp only [readBelow?, Option.filter_eq_some_iff, decide_eq_true_eq]
  rw [and_comm, and_congr_right_iff]
  intro _
  split
  · rename_i rest
    rw [readNat?_eq_some_iff]
    constructor
    · exact fun hrest => ⟨['+'], rest, rfl, .inr rfl, hrest⟩
    · rintro ⟨sign, digits, htext, rfl | rfl, hdigits⟩
      · -- a plus sign is no digit
        obtain rfl : '+' :: rest = digits := htext
        exact absurd (hdigits.2.1 '+' List.mem_cons_self) (by decide)
      · obtain rfl : rest = digits := (List.cons.inj htext).2
        exact hdigits
  · rename_i hplus
    rw [readNat?_eq_some_iff]
    constructor
    · exact fun htext => ⟨[], text, rfl, .inl rfl, htext⟩
    · rintro ⟨sign, digits, rfl, rfl | rfl, hdigits⟩
      · exact hdigits
      · exact absurd rfl (hplus digits)

theorem isBlank_eq_false_of_isDigit {c : Char} (hc : IsDigit c) : isBlank c = false := by
  have hlow : 48 ≤ c.toNat := UInt32.le_iff_toNat_le.mp hc.1
  have hhigh : c.toNat ≤ 57 := UInt32.le_iff_toNat_le.mp hc.2
  simp only [isBlank, Bool.or_eq_false_iff, Bool.and_eq_false_iff, decide_eq_false_iff_not,
    beq_eq_false_iff_ne]
  omega

/-- **A number is read if and only if the text writes it.** -/
theorem readBelow?_trim_eq_some_iff {bound n : Nat} {text : List Char} :
    readBelow? bound (trim text) = some n ↔ n < bound ∧ Writes text n := by
  rw [readBelow?_eq_some_iff, and_congr_right_iff]
  intro _
  constructor
  · rintro ⟨sign, digits, htrim, hsign, hne, hdigits, rfl⟩
    obtain ⟨before, after, htext, hbefore, hafter⟩ := exists_eq_append_trim text
    rw [htext, htrim]
    exact .intro hbefore hsign hne hdigits hafter
  · rintro (@⟨before, sign, digits, after, hbefore, hsign, hne, hdigits, hafter⟩)
    have hcore : ∀ c ∈ sign ++ digits, isBlank c = false := by
      intro c hc
      rcases List.mem_append.mp hc with hc | hc
      · rcases hsign with rfl | rfl
        · cases hc
        · rw [List.mem_singleton.mp hc]
          rfl
      · exact isBlank_eq_false_of_isDigit (hdigits c hc)
    exact ⟨sign, digits, trim_append hbefore hcore (List.append_ne_nil_of_right_ne_nil sign hne)
      hafter, hsign, hne, hdigits, rfl⟩

end Decimal

/-! ## Settings -/

namespace Limits

/-- Whether a limit takes a number from its setting: the default if there is no setting, and else the
number that the setting writes. -/
def Takes (default : UInt32) (n : UInt32) : Option String → Prop
  | none => n = default
  | some text => Decimal.Writes text.toList n.toNat

/-- Whether there is a setting that writes no number of 32 bits. -/
def Malformed (setting : Option String) (text : String) : Prop :=
  setting = some text ∧ ∀ n, Decimal.Writes text.toList n → UInt32.size ≤ n

section Bind

variable {ε α β : Type} {first : Except ε α} {next : α → Except ε β}

theorem except_bind_eq_ok_iff {y : β} :
    (first >>= next) = .ok y ↔ ∃ x, first = .ok x ∧ next x = .ok y := by
  cases first <;> simp [bind, Except.bind]

theorem except_bind_eq_error_iff {e : ε} :
    (first >>= next) = .error e ↔ first = .error e ∨ ∃ x, first = .ok x ∧ next x = .error e := by
  cases first <;> simp [bind, Except.bind]

end Bind

variable {default n : UInt32} {fault : String → LimitsFault} {setting : Option String}

/-- **A setting is read if and only if it writes the number.** -/
theorem setting?_eq_some_iff {text : String} :
    setting? text = some n ↔ Decimal.Writes text.toList n.toNat := by
  simp only [setting?, Option.map_eq_some_iff, Decimal.readBelow?_trim_eq_some_iff]
  constructor
  · rintro ⟨m, ⟨hm, hwrites⟩, rfl⟩
    rwa [UInt32.toNat_ofNat_of_lt' hm]
  · exact fun hwrites => ⟨n.toNat, ⟨n.toNat_lt, hwrites⟩, UInt32.ofNat_toNat⟩

theorem setting?_eq_none_iff {text : String} :
    setting? text = none ↔ ∀ n, Decimal.Writes text.toList n → UInt32.size ≤ n := by
  rw [setting?, Option.map_eq_none_iff, Option.eq_none_iff_forall_ne_some]
  simp only [ne_eq, Decimal.readBelow?_trim_eq_some_iff, not_and', Nat.not_lt]

theorem ofSetting_eq_ok_iff : ofSetting default fault setting = .ok n ↔ Takes default n setting := by
  cases setting with
  | none => simp [ofSetting, Takes, eq_comm]
  | some text =>
    rw [Takes, ← setting?_eq_some_iff, ofSetting]
    cases setting? text <;> simp

theorem ofSetting_eq_error_iff {e : ValueFault} : ofSetting default fault setting = .error e
    ↔ ∃ text, Malformed setting text ∧ e = .badLimits (fault text) := by
  cases setting with
  | none => simp [ofSetting, Malformed]
  | some text =>
    simp only [Malformed, ← setting?_eq_none_iff, ofSetting]
    cases h : setting? text <;> simp [h, eq_comm]

theorem validate_eq_ok_iff {l l' : Limits} :
    validate l = .ok l' ↔ l' = l ∧ l.maxStackSize ≠ 0 ∧ l.maxComparableSize ≠ 0 := by
  unfold validate
  split_ifs with hs hc <;> simp [*, eq_comm]

theorem validate_eq_error_iff {l : Limits} {e : ValueFault} : validate l = .error e
    ↔ l.maxStackSize = 0 ∧ e = .badLimits .zeroStackSize
      ∨ l.maxStackSize ≠ 0 ∧ l.maxComparableSize = 0 ∧ e = .badLimits .zeroComparableSize := by
  unfold validate
  split_ifs with hs hc <;> simp [*, eq_comm]

/-- **Limits from the environment.** Two settings give limits if and only if each of them that is there
writes a number of 32 bits other than zero; these numbers are the limits, with the default for a setting
that is not there. Otherwise the limits are refused, for the setting of the stack size if it is malformed,
then for that of the comparable size, then for a stack size of zero, and at last for a comparable size of
zero. -/
theorem ofEnvironment_exact (lookup : String → Option String) :
    (∀ l, ofEnvironment lookup = .ok l
      ↔ (Takes standard.maxStackSize l.maxStackSize (lookup "VM_MAX_STACK_SIZE")
          ∧ Takes standard.maxComparableSize l.maxComparableSize (lookup "VM_MAX_COMPARABLE_SIZE"))
        ∧ l.maxStackSize ≠ 0 ∧ l.maxComparableSize ≠ 0) ∧
    ∀ e, ofEnvironment lookup = .error e
      ↔ (∃ text, Malformed (lookup "VM_MAX_STACK_SIZE") text ∧ e = .badLimits (.stackSizeText text))
        ∨ ∃ stack, Takes standard.maxStackSize stack (lookup "VM_MAX_STACK_SIZE")
          ∧ ((∃ text, Malformed (lookup "VM_MAX_COMPARABLE_SIZE") text
              ∧ e = .badLimits (.comparableSizeText text))
            ∨ ∃ comparable,
              Takes standard.maxComparableSize comparable (lookup "VM_MAX_COMPARABLE_SIZE")
              ∧ (stack = 0 ∧ e = .badLimits .zeroStackSize
                ∨ stack ≠ 0 ∧ comparable = 0 ∧ e = .badLimits .zeroComparableSize)) := by
  constructor
  · intro l
    simp only [ofEnvironment, except_bind_eq_ok_iff, ofSetting_eq_ok_iff, validate_eq_ok_iff]
    constructor
    · rintro ⟨stack, hstack, comparable, hcomparable, rfl, hne⟩
      exact ⟨⟨hstack, hcomparable⟩, hne⟩
    · rintro ⟨⟨hstack, hcomparable⟩, hne⟩
      exact ⟨l.maxStackSize, hstack, l.maxComparableSize, hcomparable, rfl, hne⟩
  · intro e
    simp only [ofEnvironment, except_bind_eq_error_iff, ofSetting_eq_ok_iff, ofSetting_eq_error_iff,
      validate_eq_error_iff]

/-- A setting between blanks, with a plus sign and zeros in front, and one that is too large. -/
example : ofEnvironment (fun name => if name = "VM_MAX_STACK_SIZE" then some "\u2003+0064\n" else none)
      = .ok ⟨64, 65536⟩ ∧
    ofEnvironment (fun _ => some "4294967296") = .error (.badLimits (.stackSizeText "4294967296")) := by
  constructor <;> cbv

end Limits

end BoundedVm
