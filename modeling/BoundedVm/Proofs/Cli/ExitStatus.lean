import BoundedVm.Cli.Run
import BoundedVm.Proofs.Ledger.Binding
import BoundedVm.Proofs.Ledger.Faults
import Mathlib

/-! # Exit statuses

The exit status is found from the fault alone, so that it can tell an unreadable payload from a refused
one only as far as their faults differ. They do but for one: the reader reports a payload without
witnesses with the fault of the check for a wrong number of witnesses. That check itself never
reports it here, since a payload that was read has one witness and one account.

* `Unwitnessed`: the payload texts that are refused for this reason.
* `status_of_decodePayload_eq_error`, `status_of_ofJson_eq_error`, `status_verifyPayload`: the statuses
  of the three stages.
* `status_run_exact`: what each status of `hash` and `verify` stands for. -/

namespace BoundedVm

namespace Cli

variable {world : Surroundings} {source text : String} {file : Option String}

/-! ## Payloads -/

/-- The text of a source, which is `-` for the standard input. -/
def payloadText (world : Surroundings) (source : String) : Except Failure String :=
  if source = "-" then readText "stdin" world.input else .ok source

/-- Whether a text writes bytes that begin with a payload without witnesses. -/
def WritesUnwitnessed (text : String) : Prop :=
  ∃ bytes, Hex.decode (Hex.dropMark (trim text.toList)) = .ok bytes ∧
    ∃ p : ExtensiblePayload, p.Fits ∧ p.witnesses = [] ∧ Verifiable.encode p <+: bytes

/-- Whether the source of a payload gives a text without witnesses. -/
def Unwitnessed (world : Surroundings) (source : String) : Prop :=
  ∃ text, payloadText world source = .ok text ∧ WritesUnwitnessed text

/-- A payload is short of witnesses if it has none. -/
theorem underwitnessed_iff {p : ExtensiblePayload} {bytes : List UInt8} :
    Verifiable.Underwitnessed ExtensiblePayload.Fits p bytes
      ↔ p.Fits ∧ p.witnesses = [] ∧ Verifiable.encode p <+: bytes := by
  constructor
  · rintro ⟨hfits, hlt, -, hbegins⟩
    exact ⟨hfits, List.length_eq_zero_iff.mp (Nat.lt_one_iff.mp hlt), hbegins⟩
  · rintro ⟨hfits, hnone, hbegins⟩
    have hwitnesses : Verifiable.witnesses p = [] := hnone
    refine ⟨hfits, ?_, ?_, hbegins⟩
    · rw [hwitnesses]
      exact Nat.zero_lt_one
    · simp [hwitnesses]

/-- A text without witnesses is not a payload, and is refused for the number of witnesses. -/
theorem WritesUnwitnessed.decodePayload_eq (htext : WritesUnwitnessed text) :
    decodePayload text = .error (.witnessCountMismatch 1 0) := by
  obtain ⟨bytes, hbytes, p, hp⟩ := htext
  have hshort := underwitnessed_iff.2 hp
  rw [decodePayload, hbytes]
  refine (ExtensiblePayload.lawful.ofBytes_of_underwitnessed hshort).trans ?_
  rw [show Verifiable.witnesses p = [] from hp.2.1]
  rfl

/-- The status for a text that is not a payload: only one without witnesses counts as refused. -/
theorem status_of_decodePayload_eq_error {e : PayloadFault} (he : decodePayload text = .error e) :
    (WritesUnwitnessed text ∧ (Failure.payload e).status = 1) ∨
      (¬ WritesUnwitnessed text ∧ (Failure.payload e).status = 2) := by
  by_cases htext : WritesUnwitnessed text
  · rw [htext.decodePayload_eq] at he
    cases he
    exact .inl ⟨htext, rfl⟩
  · refine .inr ⟨htext, if_pos ?_⟩
    unfold decodePayload at he
    split at he
    · rename_i bytes hbytes
      rcases ExtensiblePayload.lawful.ofBytes_eq_error_cases
        ExtensiblePayload.blamesInput_readUnsigned he with hinput | ⟨p, hp⟩
      · exact hinput
      · exact absurd ⟨bytes, hbytes, p, underwitnessed_iff.1 hp⟩ htext
    · cases he
      rfl

theorem readText_eq_error {what : String} {content : Except ReadFault (List UInt8)}
    {failure : Failure} (h : readText what content = .error failure) : failure.status = 2 := by
  unfold readText at h
  split at h
  · cases h
    rfl
  · split at h <;> cases h
    rfl

theorem loadPayload_of_payloadText_eq_ok (h : payloadText world source = .ok text) :
    loadPayload world source = (decodePayload text).mapError .payload := by
  unfold payloadText at h
  rw [loadPayload, h]

theorem loadPayload_of_payloadText_eq_error {failure : Failure}
    (h : payloadText world source = .error failure) : loadPayload world source = .error failure := by
  unfold payloadText at h
  rw [loadPayload, h]

theorem status_of_payloadText_eq_error {failure : Failure}
    (h : payloadText world source = .error failure) : failure.status = 2 := by
  unfold payloadText at h
  split at h
  · exact readText_eq_error h
  · cases h

/-- The status for a payload that is not loaded. -/
theorem status_of_loadPayload_eq_error {failure : Failure}
    (h : loadPayload world source = .error failure) :
    (Unwitnessed world source ∧ failure.status = 1) ∨
      (¬ Unwitnessed world source ∧ failure.status = 2) := by
  cases htext : payloadText world source with
  | error e =>
    rw [loadPayload_of_payloadText_eq_error htext] at h
    cases h
    refine .inr ⟨?_, status_of_payloadText_eq_error htext⟩
    rintro ⟨text, hok, -⟩
    rw [htext] at hok
    cases hok
  | ok text =>
    have honly : Unwitnessed world source ↔ WritesUnwitnessed text := by
      simp [Unwitnessed, htext]
    rw [loadPayload_of_payloadText_eq_ok htext] at h
    cases hp : decodePayload text with
    | ok p =>
      rw [hp] at h
      cases h
    | error e =>
      rw [hp] at h
      cases h
      rw [honly]
      exact status_of_decodePayload_eq_error hp

/-- A payload without witnesses is not loaded. -/
theorem Unwitnessed.loadPayload_eq (h : Unwitnessed world source) :
    loadPayload world source = .error (.payload (.witnessCountMismatch 1 0)) := by
  obtain ⟨text, htext, hnone⟩ := h
  rw [loadPayload_of_payloadText_eq_ok htext, hnone.decodePayload_eq]
  rfl

theorem not_unwitnessed_of_loadPayload_eq_ok {p : ExtensiblePayload}
    (h : loadPayload world source = .ok p) : ¬ Unwitnessed world source := by
  intro hnone
  rw [hnone.loadPayload_eq] at h
  cases h

/-! ## Snapshots -/

/-- An entry of a snapshot is refused only for its hexadecimal texts. -/
theorem isMalformed_of_addTo_eq_error {s : Snapshot} {entry : Snapshot.WrittenEntry}
    {e : PayloadFault} (he : entry.addTo s = .error e) : e.isMalformed = true := by
  unfold Snapshot.WrittenEntry.addTo at he
  split at he
  · cases he
    rfl
  · split at he <;> cases he
    rfl

/-- A snapshot is refused only for faults of its text. -/
theorem isMalformed_of_ofJson_eq_error {e : PayloadFault} (he : Snapshot.ofJson text = .error e) :
    e.isMalformed = true := by
  have hentries : ∀ (entries : List Snapshot.WrittenEntry) (s : Snapshot),
      entries.foldlM Snapshot.WrittenEntry.addTo s = .error e → e.isMalformed = true := by
    intro entries
    induction entries with
    | nil =>
      intro s hs
      cases hs
    | cons entry entries ih =>
      intro s hs
      rw [List.foldlM_cons] at hs
      cases hentry : Snapshot.WrittenEntry.addTo s entry with
      | error e' =>
        rw [hentry] at hs
        cases hs
        exact isMalformed_of_addTo_eq_error hentry
      | ok s' =>
        rw [hentry] at hs
        exact ih s' hs
  unfold Snapshot.ofJson at he
  split at he
  · exact hentries _ _ he
  · cases he
    rfl

theorem status_of_loadSnapshot_eq_error {failure : Failure}
    (h : loadSnapshot world file = .error failure) : failure.status = 2 := by
  unfold loadSnapshot at h
  split at h
  · rename_i path
    split at h
    · rename_i text htext
      cases hs : Snapshot.ofJson text with
      | ok s =>
        rw [hs] at h
        cases h
      | error e =>
        rw [hs] at h
        cases h
        exact if_pos (isMalformed_of_ofJson_eq_error hs)
    · rename_i e htext
      cases h
      exact readText_eq_error htext
  · cases h

/-! ## Verdicts -/

/-- The check refuses an object that was read, and never its form. -/
theorem not_isMalformed_of_verify_eq_error {snapshot : Snapshot} {p : ExtensiblePayload}
    {e : PayloadFault} (he : Verifiable.verify snapshot p = .error e) : e.isMalformed = false := by
  have haccounts : Verifiable.accounts snapshot p = .ok [p.sender] := rfl
  rcases (Verifiable.verify_eq_error_iff haccounts).mp he with
    ⟨-, rfl⟩ | ⟨-, i, account, w, -, rfl⟩
  · rfl
  · unfold Witness.bindingFault
    split <;> rfl

open Classical in
theorem status_verifyPayload (snapshot : Snapshot) (p : ExtensiblePayload) :
    (verifyPayload snapshot p).status
      = if Verifiable.verify snapshot p = .ok () then 0 else 1 := by
  have haccounts : Verifiable.accounts snapshot p = .ok [p.sender] := rfl
  unfold verifyPayload
  rw [haccounts]
  cases hverify : Verifiable.verify snapshot p with
  | ok _ => rfl
  | error e =>
    rw [if_neg (by simp)]
    exact if_neg (by simp [not_isMalformed_of_verify_eq_error hverify])

/-! ## The program -/

/-- A command line that is understood is carried out under the limits that are loaded. -/
theorem run_eq_runCommand {args : List String} {invocation : Invocation} {limits : Limits}
    (hargs : Invocation.ofArgs args = .ok invocation)
    (hlimits : loadLimits world (invocation.limitsPath world) = .ok limits) :
    run world args = runCommand world limits invocation.command := by
  rw [run, hargs]
  show runInvocation world invocation = _
  rw [runInvocation, hlimits]

/-- **What the exit status says.** Under valid limits, `hash` ends with 0 if the payload is read and
`verify` if it is also let through on a snapshot that is loaded. Status 2 stands for a payload or a
snapshot that is not loaded, and status 1 for a payload that is refused on the snapshot; but a payload
without witnesses has status 1 too, although it is not read and the snapshot not looked at. -/
theorem status_run_exact {args : List String} {invocation : Invocation} {limits : Limits}
    (hargs : Invocation.ofArgs args = .ok invocation)
    (hlimits : loadLimits world (invocation.limitsPath world) = .ok limits) :
    (∀ source, invocation.command = .hash source →
      ((run world args).status = 0 ↔ ∃ p, loadPayload world source = .ok p) ∧
      ((run world args).status = 1 ↔ Unwitnessed world source) ∧
      ((run world args).status = 2
        ↔ (∃ e, loadPayload world source = .error e) ∧ ¬ Unwitnessed world source)) ∧
    ∀ source file, invocation.command = .verify source file →
      ((run world args).status = 0
        ↔ ∃ p s, loadPayload world source = .ok p ∧ loadSnapshot world file = .ok s ∧
            Verifiable.verify s p = .ok ()) ∧
      ((run world args).status = 1
        ↔ Unwitnessed world source ∨
          ∃ p s, loadPayload world source = .ok p ∧ loadSnapshot world file = .ok s ∧
            ∃ e, Verifiable.verify s p = .error e) ∧
      ((run world args).status = 2
        ↔ (∃ e, loadPayload world source = .error e) ∧ ¬ Unwitnessed world source ∨
          ∃ p e, loadPayload world source = .ok p ∧ loadSnapshot world file = .error e) := by
  have hrun := run_eq_runCommand hargs hlimits
  constructor
  · intro source hcommand
    rw [hrun, hcommand]
    show ((runHash world source).status = 0 ↔ _) ∧ ((runHash world source).status = 1 ↔ _) ∧
      ((runHash world source).status = 2 ↔ _)
    unfold runHash
    cases hpayload : loadPayload world source with
    | ok p => simp [not_unwitnessed_of_loadPayload_eq_ok hpayload]
    | error failure =>
      rcases status_of_loadPayload_eq_error hpayload with ⟨hnone, hstatus⟩ | ⟨hnone, hstatus⟩ <;>
        simp [Failure.outcome, hnone, hstatus]
  · intro source file hcommand
    rw [hrun, hcommand]
    show ((runVerify world source file).status = 0 ↔ _) ∧
      ((runVerify world source file).status = 1 ↔ _) ∧
      ((runVerify world source file).status = 2 ↔ _)
    unfold runVerify
    cases hpayload : loadPayload world source with
    | error failure =>
      rcases status_of_loadPayload_eq_error hpayload with ⟨hnone, hstatus⟩ | ⟨hnone, hstatus⟩ <;>
        simp [Failure.outcome, hnone, hstatus]
    | ok p =>
      have hnone := not_unwitnessed_of_loadPayload_eq_ok hpayload
      cases hsnapshot : loadSnapshot world file with
      | error failure =>
        simp [Failure.outcome, hnone, status_of_loadSnapshot_eq_error hsnapshot]
      | ok s =>
        cases hverify : Verifiable.verify s p with
        | ok _ => simp [status_verifyPayload, hnone, hverify]
        | error e => simp [status_verifyPayload, hnone, hverify]

/-! ## A payload without witnesses -/

/-- A line that begins with no option is a command and its arguments. -/
theorem ofArgs_cons_of_looksLikeOption_eq_false {arg : String} (harg : looksLikeOption arg = false)
    (rest : List String) :
    Invocation.ofArgs (arg :: rest) = (command arg rest).map fun c => ⟨none, false, c⟩ := by
  rw [Invocation.ofArgs, readLine.eq_def]
  simp only [harg, Bool.not_false, if_true]

theorem ofArgs_hash {source : String} (hsource : looksLikeOption source = false) :
    Invocation.ofArgs ["hash", source] = .ok ⟨none, false, .hash source⟩ := by
  rw [ofArgs_cons_of_looksLikeOption_eq_false (by simp [looksLikeOption])]
  simp [command, collect, hsource, Except.map]

theorem ofArgs_verify {source : String} (hsource : looksLikeOption source = false) :
    Invocation.ofArgs ["verify", source] = .ok ⟨none, false, .verify source none⟩ := by
  rw [ofArgs_cons_of_looksLikeOption_eq_false (by simp [looksLikeOption])]
  simp [command, collect, hsource, Except.map]

/-- No settings, no files and an empty standard input. -/
def nowhere : Surroundings := ⟨fun _ => none, fun _ => .error .notFound, .ok []⟩

/-- The payload without witnesses. -/
def unwitnessedText : String :=
  "00000000000100000000000000000000000000000000000000000000000000"

/-- The payload with one witness, which stands for a contract. -/
def witnessedText : String :=
  "000000000001000000000000000000000000000000000000000000000000010000"

theorem status_run_exact_witnessedText :
    (run nowhere ["hash", witnessedText]).status = 0 ∧
      (run nowhere ["verify", witnessedText]).status = 1 := by
  have hlimits : loadLimits nowhere none = .ok .standard := rfl
  have hplain : looksLikeOption witnessedText = false := by simp [looksLikeOption, witnessedText]
  have hpayload : loadPayload nowhere witnessedText
      = .ok { validUntil := 1, witnesses := [⟨[], []⟩] } := by
    cbv
  have hrefused : Verifiable.verify .empty
      ({ validUntil := 1, witnesses := [⟨[], []⟩] } : ExtensiblePayload)
      = .error (.contractNotFound .zero) := rfl
  exact ⟨((status_run_exact (ofArgs_hash hplain) hlimits).1 _ rfl).1.mpr ⟨_, hpayload⟩,
    ((status_run_exact (ofArgs_verify hplain) hlimits).2 _ _ rfl).2.1.mpr
      (.inr ⟨_, _, hpayload, rfl, _, hrefused⟩)⟩

/-- **A payload without witnesses is not reported as bad input.** It is not read, and yet neither `hash`
nor `verify` ends with 2. -/
theorem status_run_unwitnessedText :
    decodePayload unwitnessedText = .error (.witnessCountMismatch 1 0) ∧
      (run nowhere ["hash", unwitnessedText]).status = 1 ∧
      (run nowhere ["verify", unwitnessedText]).status = 1 := by
  have hlimits : loadLimits nowhere none = .ok .standard := rfl
  have hplain : looksLikeOption unwitnessedText = false := by
    simp [looksLikeOption, unwitnessedText]
  have htext : WritesUnwitnessed unwitnessedText :=
    ⟨[0, 0, 0, 0, 0, 1] ++ List.replicate 25 0, by cbv, { validUntil := 1 },
      ⟨by decide, by decide, by decide⟩, rfl, [], by cbv⟩
  have hnone : Unwitnessed nowhere unwitnessedText :=
    ⟨unwitnessedText, if_neg (by decide), htext⟩
  refine ⟨htext.decodePayload_eq, ?_, ?_⟩
  · rw [run_eq_runCommand (ofArgs_hash hplain) hlimits]
    show (runHash nowhere unwitnessedText).status = 1
    rw [runHash, hnone.loadPayload_eq]
    rfl
  · rw [run_eq_runCommand (ofArgs_verify hplain) hlimits]
    show (runVerify nowhere unwitnessedText none).status = 1
    rw [runVerify, hnone.loadPayload_eq]
    rfl

end Cli

end BoundedVm
