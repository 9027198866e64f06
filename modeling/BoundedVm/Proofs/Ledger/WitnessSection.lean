import BoundedVm.Proofs.Ledger.Faults
import BoundedVm.Proofs.Wire.Minimal

/-! # What reading a witness section comes to

The reader of a witness section looks at each length before it reads what the length belongs to. A
section of more witnesses than are asked for is refused at once, whatever they hold. Else the scripts are
read in the order in which they stand, and the first one that is too long ends the reading, also where
witnesses are missing; that they are is only found when all have been read.

* `Reader.Accepts.times_append_of_error`: a row of values is refused for the first one that is.
* `Witness.firstOverlong?`: the script for which a section is refused.
* `Witness.readSection_exact`: what reading comes to, for any section and any number asked for. -/

namespace BoundedVm

/-! ## Lengths above a bound -/

namespace Reader

variable {α : Type} {max : Nat}

theorem varBytes_append_of_lt {content : List UInt8} (hsized : content.length < 2 ^ 64)
    (hlong : max < content.length) (tail : List UInt8) :
    varBytes max (Wire.varBytes content ++ tail)
      = .error (.lengthExceeded content.length max) (Wire.varBytes content ++ tail) := by
  rw [Wire.varBytes, List.append_assoc]
  exact bind_eq_error_iff.2 (.inl (varInt_append_of_lt hsized hlong _))

theorem array_append_of_lt {item : Reader α} {encode : α → List UInt8} {xs : List α}
    (hsized : xs.length < 2 ^ 64) (hlong : max < xs.length) (tail : List UInt8) :
    array max item (Wire.array encode xs ++ tail)
      = .error (.lengthExceeded xs.length max) (Wire.array encode xs ++ tail) := by
  rw [Wire.array, List.append_assoc]
  exact bind_eq_error_iff.2 (.inl (varInt_append_of_lt hsized hlong _))

/-- A row of values is refused for the first one that is refused, whatever comes after it. -/
theorem Accepts.times_append_of_error {r : Reader α} {Fits : α → Prop} {encode : α → List UInt8}
    (hr : r.Accepts Fits encode) {before : List α} (hbefore : ∀ x ∈ before, Fits x) {y : α}
    {e : PayloadFault} (hy : ∀ tail, ∃ rest, r (encode y ++ tail) = .error e rest) (after : List α)
    (tail : List UInt8) :
    ∃ rest, Reader.times r (before ++ y :: after).length
      ((before ++ y :: after).flatMap encode ++ tail) = .error e rest := by
  induction before with
  | nil =>
    obtain ⟨rest, hrest⟩ := hy (after.flatMap encode ++ tail)
    refine ⟨rest, ?_⟩
    rw [List.nil_append, List.flatMap_cons, List.append_assoc]
    exact bind_eq_error_iff.2 (.inl hrest)
  | cons x before ih =>
    obtain ⟨hx, hbefore⟩ := List.forall_mem_cons.mp hbefore
    obtain ⟨rest, hrest⟩ := ih hbefore
    refine ⟨rest, ?_⟩
    rw [List.cons_append, List.flatMap_cons, List.append_assoc]
    refine bind_eq_error_iff.2 (.inr ⟨x, _, hr.read_append hx _, ?_⟩)
    exact bind_eq_error_iff.2 (.inl hrest)

end Reader

/-! ## Scripts of a section -/

namespace Witness

/-- The scripts of a witness, in the order in which they are written. -/
def scripts (w : Witness) : List (List UInt8) := [w.invocation, w.verification]

/-- The first script of some witnesses that is longer than a script may be. -/
def firstOverlong? (ws : List Witness) : Option (List UInt8) :=
  (ws.flatMap scripts).find? (1024 < ·.length)

/-- Whether the number of some witnesses and the lengths of their scripts are numbers of 64 bits, as those
of all lists in memory are. -/
def Representable (ws : List Witness) : Prop :=
  ws.length < 2 ^ 64 ∧ ∀ w ∈ ws, ∀ script ∈ w.scripts, script.length < 2 ^ 64

variable {w : Witness} {ws : List Witness} {script : List UInt8}

theorem find?_scripts_eq_none_iff : w.scripts.find? (1024 < ·.length) = none ↔ w.Fits := by
  simp [scripts, Fits]

theorem firstOverlong?_eq_none_iff : firstOverlong? ws = none ↔ ∀ w ∈ ws, w.Fits := by
  rw [firstOverlong?, List.find?_flatMap, List.findSome?_eq_none_iff]
  exact forall₂_congr fun _ _ => find?_scripts_eq_none_iff

/-- All witnesses before the one with the script are within their bounds. -/
theorem exists_of_firstOverlong? (hscript : firstOverlong? ws = some script) :
    ∃ before w after, ws = before ++ w :: after ∧ (∀ w ∈ before, w.Fits) ∧
      w.scripts.find? (1024 < ·.length) = some script := by
  rw [firstOverlong?, List.find?_flatMap] at hscript
  obtain ⟨before, w, after, hws, hw, hbefore⟩ := List.findSome?_eq_some_iff.mp hscript
  exact ⟨before, w, after, hws, fun x hx => find?_scripts_eq_none_iff.1 (hbefore x hx), hw⟩

/-- A witness is refused for the first of its scripts that is too long. -/
theorem read_append_of_overlong (hscript : w.scripts.find? (1024 < ·.length) = some script)
    (hsized : ∀ script ∈ w.scripts, script.length < 2 ^ 64) (tail : List UInt8) :
    ∃ rest, read (w.encode ++ tail) = .error (.lengthExceeded script.length 1024) rest := by
  have hrefused : ∀ content ∈ w.scripts, 1024 < content.length → ∀ tail,
      Reader.varBytes maxScript (Wire.varBytes content ++ tail)
        = .error (.lengthExceeded content.length 1024) (Wire.varBytes content ++ tail) :=
    fun content hcontent hlong => Reader.varBytes_append_of_lt (hsized content hcontent) hlong
  rw [encode, List.append_assoc]
  by_cases hinvocation : 1024 < w.invocation.length
  · obtain rfl : w.invocation = script := by simpa [scripts, hinvocation] using hscript
    have hread := hrefused w.invocation List.mem_cons_self hinvocation
    exact ⟨_, Reader.bind_eq_error_iff.2 (.inl (hread _))⟩
  · -- the invocation script is read, and the other one is too long
    obtain ⟨hlong, rfl⟩ : 1024 < w.verification.length ∧ w.verification = script := by
      simpa [scripts, hinvocation] using hscript
    have hfirst := (Reader.accepts_varBytes (by decide : maxScript < 2 ^ 64)).read_append
      (Nat.le_of_not_lt hinvocation) (Wire.varBytes w.verification ++ tail)
    have hread := hrefused w.verification (List.mem_cons_of_mem _ List.mem_cons_self) hlong
    exact ⟨_, Reader.bind_eq_error_iff.2
      (.inr ⟨_, _, hfirst, Reader.bind_eq_error_iff.2 (.inl (hread tail))⟩)⟩

/-! ## Sections -/

/-- More witnesses than are asked for are refused before any of them is read. -/
theorem readSection_of_lt_length (hws : Representable ws) {count : Nat} (hlt : count < ws.length)
    (suffix : List UInt8) : readSection count (encodeSection ws ++ suffix)
      = .error (.lengthExceeded ws.length count) (encodeSection ws ++ suffix) :=
  Reader.bind_eq_error_iff.2 (.inl (Reader.array_append_of_lt hws.1 hlt suffix))

/-- A script that is too long ends the reading, whether or not there are enough witnesses. -/
theorem readSection_of_firstOverlong? (hws : Representable ws) {count : Nat}
    (hle : ws.length ≤ count) (hscript : firstOverlong? ws = some script) (suffix : List UInt8) :
    ∃ rest, readSection count (encodeSection ws ++ suffix)
      = .error (.lengthExceeded script.length 1024) rest := by
  obtain ⟨before, w, after, rfl, hbefore, hw⟩ := exists_of_firstOverlong? hscript
  have hmem : w ∈ before ++ w :: after := List.mem_append_right _ List.mem_cons_self
  obtain ⟨rest, hrest⟩ := accepts_read.times_append_of_error hbefore
    (read_append_of_overlong hw (hws.2 w hmem)) after suffix
  refine ⟨rest, Reader.bind_eq_error_iff.2 (.inl ?_)⟩
  rw [encodeSection, Wire.array, List.append_assoc]
  exact Reader.bind_eq_error_iff.2 (.inr ⟨_, _, Reader.varInt_append hws.1 hle _, hrest⟩)

/-- **What reading a witness section comes to.** For any witnesses whose lengths are numbers of 64 bits, any
number asked for and whatever follows the section: the witnesses are read back, with what follows left, if
they are as many as asked for and no script is longer than 1024 bytes. If they are more, they are refused
with both numbers. If they are not more and some script is too long, they are refused for the first such
script, and else, if they are fewer, for their number. -/
theorem readSection_exact (hws : Representable ws) (count : Nat) (suffix : List UInt8) :
    (ws.length = count → (∀ w ∈ ws, w.invocation.length ≤ 1024 ∧ w.verification.length ≤ 1024) →
      readSection count (encodeSection ws ++ suffix) = .ok ws suffix) ∧
    (count < ws.length → readSection count (encodeSection ws ++ suffix)
      = .error (.lengthExceeded ws.length count) (encodeSection ws ++ suffix)) ∧
    (ws.length ≤ count → ∀ script, firstOverlong? ws = some script →
      ∃ rest, readSection count (encodeSection ws ++ suffix)
        = .error (.lengthExceeded script.length 1024) rest) ∧
    (ws.length < count → firstOverlong? ws = none →
      readSection count (encodeSection ws ++ suffix)
        = .error (.witnessCountMismatch count ws.length) suffix) := by
  refine ⟨fun hcount hfits => ?_, fun hlt => ?_, fun hle script hscript => ?_, fun hlt hnone => ?_⟩
  · have hsized : count < 2 ^ 64 := hcount ▸ hws.1
    exact (accepts_readSection hsized).read_append ⟨hcount, hfits⟩ suffix
  · exact readSection_of_lt_length hws hlt suffix
  · exact readSection_of_firstOverlong? hws hle hscript suffix
  · have hfits : ∀ w ∈ ws, w.Fits := firstOverlong?_eq_none_iff.1 hnone
    exact readSection_encodeSection_of_lt hws.1 hlt hfits suffix

/-- A witness with a verification script that is too long stands between two others. -/
def overlongSection : List Witness :=
  [⟨[1], [2]⟩, ⟨[3], List.replicate 1025 0⟩, ⟨[], []⟩]

/-- The section is refused for its number when two witnesses are asked for, and else for the script, also
when a fourth witness is missing; without the second witness it is read back. -/
theorem readSection_exact_overlongSection :
    Representable overlongSection ∧
      readSection 2 (encodeSection overlongSection ++ [9])
        = .error (.lengthExceeded 3 2) (encodeSection overlongSection ++ [9]) ∧
      (∃ rest, readSection 4 (encodeSection overlongSection ++ [9])
        = .error (.lengthExceeded 1025 1024) rest) ∧
      Representable (overlongSection.eraseIdx 1) ∧
      readSection 2 (encodeSection (overlongSection.eraseIdx 1) ++ [9])
        = .ok [⟨[1], [2]⟩, ⟨[], []⟩] [9] ∧
      readSection 3 (encodeSection (overlongSection.eraseIdx 1) ++ [9])
        = .error (.witnessCountMismatch 3 2) [9] := by
  have hlong : Representable overlongSection := by
    simp [Representable, overlongSection, scripts, -List.reduceReplicate]
  have hshort : Representable (overlongSection.eraseIdx 1) := by
    simp [Representable, overlongSection, scripts, -List.reduceReplicate]
  have hscript : firstOverlong? overlongSection = some (List.replicate 1025 0) := by
    simp [firstOverlong?, overlongSection, scripts, -List.reduceReplicate]
  obtain ⟨-, hmany, -, -⟩ := readSection_exact hlong 2 [9]
  obtain ⟨-, -, hfour, -⟩ := readSection_exact hlong 4 [9]
  obtain ⟨hread, -, -, -⟩ := readSection_exact hshort 2 [9]
  obtain ⟨-, -, -, hfew⟩ := readSection_exact hshort 3 [9]
  refine ⟨hlong, hmany (by decide), ?_, hshort, hread rfl ?_, hfew (by decide) ?_⟩
  · have hrefused := hfour (by decide) _ hscript
    rwa [List.length_replicate] at hrefused
  · simp [overlongSection, -List.reduceReplicate]
  · simp [firstOverlong?, overlongSection, scripts, -List.reduceReplicate]

end Witness

end BoundedVm
