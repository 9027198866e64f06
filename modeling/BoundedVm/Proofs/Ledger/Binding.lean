import BoundedVm.Ledger.Endorsement
import BoundedVm.Ledger.Header
import BoundedVm.Proofs.Ledger.Snapshot

/-! # Witnesses that are bound to their accounts

A witness is bound to an account if its verification script controls the account, or if it has none and
a contract is deployed at the account. An object is let through if each of its accounts has one witness,
at the same place, that is bound to it, and otherwise the first place where this fails is reported.

* `Witness.IsBound`, `BoundAt`, `FirstUnbound`: what is looked for, and the first place where it fails.
* `checkBindings_eq_ok_iff`, `checkBindings_eq_error_iff`, `checkBindings_congr`: the check of witnesses
  place by place.
* `Verifiable.verify_exact`: the verdict on an object, and what it does not depend on. -/

namespace BoundedVm

/-- Whether a contract is deployed at an account. -/
def Snapshot.Deploys (s : Snapshot) (account : Account) : Prop :=
  ∃ contract, s.get? (contractKey account) = some contract

theorem Snapshot.contains_contractKey_iff {s : Snapshot} {account : Account} :
    s.contains (contractKey account) = true ↔ s.Deploys account := by
  rw [contains_eq_isSome_get?, Option.isSome_iff_exists, Deploys]

/-! ## One witness -/

namespace Witness

variable {snapshot : Snapshot} {account : Account} {w : Witness}

/-- Whether a witness is bound to an account: it has a verification script, which controls the account,
or it has none and a contract is deployed at the account. -/
def IsBound (snapshot : Snapshot) (account : Account) (w : Witness) : Prop :=
  w.verification ≠ [] ∧ w.account = account ∨ w.verification = [] ∧ snapshot.Deploys account

/-- The fault of a witness that stands at `index` and is not bound to its account. -/
def bindingFault (index : Nat) (account : Account) (w : Witness) : PayloadFault :=
  if w.verification = [] then .contractNotFound account
  else .witnessScriptMismatch index account w.account

theorem checkBinding_of_isBound (index : Nat) (h : w.IsBound snapshot account) :
    w.checkBinding snapshot index account = .ok () := by
  rcases h with ⟨hscript, haccount⟩ | ⟨hscript, hdeployed⟩
  · rw [checkBinding, if_neg hscript, if_pos haccount]
  · rw [checkBinding, if_pos hscript, if_pos (Snapshot.contains_contractKey_iff.2 hdeployed)]

theorem checkBinding_of_not_isBound (index : Nat) (h : ¬ w.IsBound snapshot account) :
    w.checkBinding snapshot index account = .error (w.bindingFault index account) := by
  rw [checkBinding, bindingFault]
  by_cases hscript : w.verification = []
  · have hnone : ¬ snapshot.contains (contractKey account) = true :=
      fun hc => h (.inr ⟨hscript, Snapshot.contains_contractKey_iff.1 hc⟩)
    rw [if_pos hscript, if_pos hscript, if_neg hnone]
  · rw [if_neg hscript, if_neg hscript, if_neg fun haccount => h (.inl ⟨hscript, haccount⟩)]

/-- A witness is bound to the account of its own verification script, unless it has none and no contract
is deployed at the account of the empty script. -/
theorem isBound_account_iff :
    w.IsBound snapshot w.account ↔ w.verification ≠ [] ∨ snapshot.Deploys (.ofScript []) := by
  by_cases hscript : w.verification = []
  · simp [IsBound, Witness.account, hscript]
  · simp [IsBound, hscript]

/-- The check of a witness looks only at its verification script and at what is deployed at the
account. -/
theorem checkBinding_congr {snapshot' : Snapshot} {w' : Witness} (index : Nat)
    (hscript : w'.verification = w.verification)
    (hdeployed : snapshot'.Deploys account ↔ snapshot.Deploys account) :
    w'.checkBinding snapshot' index account = w.checkBinding snapshot index account := by
  have hcontains :
      snapshot'.contains (contractKey account) = snapshot.contains (contractKey account) := by
    rw [Bool.eq_iff_iff, Snapshot.contains_contractKey_iff, Snapshot.contains_contractKey_iff]
    exact hdeployed
  rw [checkBinding, checkBinding, Witness.account, Witness.account, hscript, hcontains]

end Witness

/-! ## Witnesses place by place -/

section

variable {snapshot : Snapshot} {accounts : List Account} {ws : List Witness} {account : Account}
  {w : Witness} {i : Nat}

/-- Whether the witness at a place, if there is one, is bound to the account at this place. -/
def BoundAt (snapshot : Snapshot) (accounts : List Account) (ws : List Witness) (i : Nat) : Prop :=
  ∀ account w, accounts[i]? = some account → ws[i]? = some w → w.IsBound snapshot account

/-- Whether a place is the first one where a witness is not bound to its account. -/
structure FirstUnbound (snapshot : Snapshot) (accounts : List Account) (ws : List Witness) (i : Nat)
    (account : Account) (w : Witness) : Prop where
  account_at : accounts[i]? = some account
  witness_at : ws[i]? = some w
  not_isBound : ¬ w.IsBound snapshot account
  boundAt_of_lt : ∀ j < i, BoundAt snapshot accounts ws j

theorem boundAt_zero_cons :
    BoundAt snapshot (account :: accounts) (w :: ws) 0 ↔ w.IsBound snapshot account := by
  constructor
  · intro h
    exact h account w rfl rfl
  · intro h account' w' haccount hw
    cases haccount
    cases hw
    exact h

theorem boundAt_succ_cons :
    BoundAt snapshot (account :: accounts) (w :: ws) (i + 1) ↔ BoundAt snapshot accounts ws i :=
  Iff.rfl

theorem FirstUnbound.not_boundAt (h : FirstUnbound snapshot accounts ws i account w) :
    ¬ BoundAt snapshot accounts ws i :=
  fun hbound => h.not_isBound (hbound account w h.account_at h.witness_at)

/-- There is no more than one first place. -/
theorem FirstUnbound.unique {j : Nat} {account' : Account} {w' : Witness}
    (h : FirstUnbound snapshot accounts ws i account w)
    (h' : FirstUnbound snapshot accounts ws j account' w') : i = j ∧ account = account' ∧ w = w' := by
  obtain hlt | rfl | hlt := Nat.lt_trichotomy i j
  · exact absurd (h'.boundAt_of_lt i hlt) h.not_boundAt
  · exact ⟨rfl, Option.some.inj (h.account_at.symm.trans h'.account_at),
      Option.some.inj (h.witness_at.symm.trans h'.witness_at)⟩
  · exact absurd (h.boundAt_of_lt j hlt) h'.not_boundAt

/-- A place stays the first one when a bound witness is put in front. -/
theorem FirstUnbound.cons {account' : Account} {w' : Witness}
    (h : FirstUnbound snapshot accounts ws i account w) (hbound : w'.IsBound snapshot account') :
    FirstUnbound snapshot (account' :: accounts) (w' :: ws) (i + 1) account w := by
  refine ⟨h.account_at, h.witness_at, h.not_isBound, fun j hj => ?_⟩
  cases j with
  | zero => exact boundAt_zero_cons.2 hbound
  | succ j => exact boundAt_succ_cons.2 (h.boundAt_of_lt j (Nat.lt_of_succ_lt_succ hj))

/-- The check lets the witnesses through if all of them are bound, and else reports the first place
where one is not. -/
theorem checkBindings_cases (snapshot : Snapshot) (accounts : List Account) (ws : List Witness)
    (index : Nat) :
    (checkBindings snapshot index accounts ws = .ok () ∧ ∀ i, BoundAt snapshot accounts ws i) ∨
      ∃ i account w, FirstUnbound snapshot accounts ws i account w ∧
        checkBindings snapshot index accounts ws = .error (w.bindingFault (index + i) account) := by
  induction accounts generalizing ws index with
  | nil => exact .inl ⟨rfl, fun i account w haccount => by cases haccount⟩
  | cons account accounts ih =>
    cases ws with
    | nil => exact .inl ⟨rfl, fun i account w _ hw => by cases hw⟩
    | cons w ws =>
      by_cases hbound : w.IsBound snapshot account
      · rw [checkBindings, w.checkBinding_of_isBound index hbound]
        rcases ih ws (index + 1) with ⟨hok, hall⟩ | ⟨i, account', w', hfirst, herror⟩
        · refine .inl ⟨hok, fun i => ?_⟩
          cases i with
          | zero => exact boundAt_zero_cons.2 hbound
          | succ i => exact boundAt_succ_cons.2 (hall i)
        · refine .inr ⟨i + 1, account', w', hfirst.cons hbound, ?_⟩
          rw [← Nat.add_assoc, Nat.add_right_comm]
          exact herror
      · -- the check ends with this witness
        refine .inr ⟨0, account, w, ⟨rfl, rfl, hbound, fun j hj => absurd hj (Nat.not_lt_zero j)⟩, ?_⟩
        rw [checkBindings, w.checkBinding_of_not_isBound index hbound]
        rfl

/-- The witnesses are let through if each of them is bound. -/
theorem checkBindings_eq_ok_iff (index : Nat) :
    checkBindings snapshot index accounts ws = .ok () ↔ ∀ i, BoundAt snapshot accounts ws i := by
  rcases checkBindings_cases snapshot accounts ws index with
    ⟨hok, hall⟩ | ⟨i, account, w, hfirst, herror⟩
  · exact iff_of_true hok hall
  · rw [herror]
    exact iff_of_false (fun hok => by cases hok) fun hall => hfirst.not_boundAt (hall i)

/-- The fault is that of the first witness that is not bound. -/
theorem checkBindings_eq_error_iff (index : Nat) {e : PayloadFault} :
    checkBindings snapshot index accounts ws = .error e
      ↔ ∃ i account w, FirstUnbound snapshot accounts ws i account w ∧
          e = w.bindingFault (index + i) account := by
  rcases checkBindings_cases snapshot accounts ws index with
    ⟨hok, hall⟩ | ⟨i, account, w, hfirst, herror⟩
  · rw [hok]
    refine iff_of_false (fun he => by cases he) ?_
    rintro ⟨i, account, w, hfirst, -⟩
    exact hfirst.not_boundAt (hall i)
  · rw [herror]
    constructor
    · intro he
      cases he
      exact ⟨i, account, w, hfirst, rfl⟩
    · rintro ⟨j, account', w', hfirst', rfl⟩
      obtain ⟨rfl, rfl, rfl⟩ := hfirst.unique hfirst'
      rfl

/-- The check looks only at the verification scripts and at what is deployed at the accounts. -/
theorem checkBindings_congr {snapshot' : Snapshot} {ws' : List Witness} (index : Nat)
    (hscripts : ws'.map (·.verification) = ws.map (·.verification))
    (hdeployed : ∀ account ∈ accounts, snapshot'.Deploys account ↔ snapshot.Deploys account) :
    checkBindings snapshot' index accounts ws' = checkBindings snapshot index accounts ws := by
  induction accounts generalizing ws ws' index with
  | nil => rfl
  | cons account accounts ih =>
    obtain ⟨hhere, hrest⟩ := List.forall_mem_cons.mp hdeployed
    cases ws with
    | nil =>
      obtain rfl := List.map_eq_nil_iff.mp hscripts
      rfl
    | cons w ws =>
      obtain ⟨w', ws'', rfl, hscript, htail⟩ := List.map_eq_cons_iff.mp hscripts
      rw [checkBindings, checkBindings, Witness.checkBinding_congr index hscript hhere,
        ih (index + 1) htail hrest]

end

/-! ## Verdicts -/

namespace Verifiable

variable {α : Type} [Verifiable α] {snapshot : Snapshot} {x : α} {expected : List Account}

theorem verify_of_accounts_eq_error {e : PayloadFault} (h : accounts snapshot x = .error e) :
    verify snapshot x = .error e := by
  rw [verify, h]

theorem verify_of_accounts_eq_ok (h : accounts snapshot x = .ok expected) :
    verify snapshot x
      = if expected.length ≠ (witnesses x).length then
          .error (.witnessCountMismatch expected.length (witnesses x).length)
        else checkBindings snapshot 0 expected (witnesses x) := by
  rw [verify, h]

/-- An object is let through if every account has its witness. -/
theorem verify_eq_ok_iff (h : accounts snapshot x = .ok expected) :
    verify snapshot x = .ok ()
      ↔ expected.length = (witnesses x).length ∧ ∀ i, BoundAt snapshot expected (witnesses x) i := by
  rw [verify_of_accounts_eq_ok h]
  by_cases hlen : expected.length = (witnesses x).length
  · rw [if_neg (not_not.mpr hlen), checkBindings_eq_ok_iff, and_iff_right hlen]
  · rw [if_pos hlen]
    exact iff_of_false (fun hok => by cases hok) fun hall => hlen hall.1

/-- An object that is not let through has a wrong number of witnesses or else a first one that is not
bound. -/
theorem verify_eq_error_iff (h : accounts snapshot x = .ok expected) {e : PayloadFault} :
    verify snapshot x = .error e
      ↔ expected.length ≠ (witnesses x).length ∧
            e = .witnessCountMismatch expected.length (witnesses x).length ∨
          expected.length = (witnesses x).length ∧
            ∃ i account w, FirstUnbound snapshot expected (witnesses x) i account w ∧
              e = w.bindingFault i account := by
  rw [verify_of_accounts_eq_ok h]
  by_cases hlen : expected.length = (witnesses x).length
  · rw [if_neg (not_not.mpr hlen), checkBindings_eq_error_iff]
    simp only [Nat.zero_add]
    constructor
    · intro hfirst
      exact .inr ⟨hlen, hfirst⟩
    · rintro (⟨hne, -⟩ | ⟨-, hfirst⟩)
      · exact absurd hlen hne
      · exact hfirst
  · rw [if_pos hlen]
    constructor
    · intro he
      cases he
      exact .inl ⟨hlen, rfl⟩
    · rintro (⟨-, rfl⟩ | ⟨heq, -⟩)
      · rfl
      · exact absurd heq hlen

/-- An object with a single account needs a single witness, which is bound to it. -/
theorem verify_eq_ok_iff_of_single {account : Account} (h : accounts snapshot x = .ok [account]) :
    verify snapshot x = .ok () ↔ ∃ w, witnesses x = [w] ∧ w.IsBound snapshot account := by
  rw [verify_eq_ok_iff h]
  constructor
  · rintro ⟨hlen, hall⟩
    obtain ⟨w, hw⟩ := List.length_eq_one_iff.mp hlen.symm
    rw [hw] at hall
    exact ⟨w, hw, boundAt_zero_cons.1 (hall 0)⟩
  · rintro ⟨w, hw, hbound⟩
    rw [hw]
    refine ⟨rfl, fun i => ?_⟩
    cases i with
    | zero => exact boundAt_zero_cons.2 hbound
    | succ i => exact fun account' w' haccount => by cases haccount

/-- **Exactly the bound objects are let through.** An object whose accounts are not found is refused for
this reason. Any other is let through if and only if it has as many witnesses as accounts and each
witness is bound to the account at its place; if the numbers differ it is refused with both of them, and
else with the fault of the first witness that is not bound. Once the accounts are given the verdict is up
to the verification scripts and to which of these accounts have a contract, and to nothing else in the
witnesses or in the snapshot. -/
theorem verify_exact (snapshot : Snapshot) (x : α) :
    (∀ e, accounts snapshot x = .error e → verify snapshot x = .error e) ∧
    ∀ expected, accounts snapshot x = .ok expected →
      (verify snapshot x = .ok ()
        ↔ expected.length = (witnesses x).length ∧ ∀ i, BoundAt snapshot expected (witnesses x) i) ∧
      (∀ e, verify snapshot x = .error e
        ↔ expected.length ≠ (witnesses x).length ∧
              e = .witnessCountMismatch expected.length (witnesses x).length ∨
            expected.length = (witnesses x).length ∧
              ∃ i account w, FirstUnbound snapshot expected (witnesses x) i account w ∧
                e = w.bindingFault i account) ∧
      ∀ (snapshot' : Snapshot) (x' : α), accounts snapshot' x' = .ok expected →
        (witnesses x').map (·.verification) = (witnesses x).map (·.verification) →
        (∀ account ∈ expected, snapshot'.Deploys account ↔ snapshot.Deploys account) →
        verify snapshot' x' = verify snapshot x := by
  refine ⟨fun e => verify_of_accounts_eq_error, fun expected h => ⟨verify_eq_ok_iff h,
    fun e => verify_eq_error_iff h, fun snapshot' x' h' hscripts hdeployed => ?_⟩⟩
  have hlen : (witnesses x').length = (witnesses x).length := by
    simpa using congrArg List.length hscripts
  rw [verify_of_accounts_eq_ok h, verify_of_accounts_eq_ok h', hlen,
    checkBindings_congr 0 hscripts hdeployed]

/-- A header whose previous block is nowhere. -/
def orphan : Header := { previous := ⟨List.replicate 32 1, rfl⟩ }

/-- An endorsement by a script and by a contract. -/
def cosigned : Endorsement :=
  { accounts := [.ofScript [1], .zero], witnesses := [⟨[7], [1]⟩, ⟨[8], []⟩] }

/-- The same endorsement with other invocation scripts. -/
def signedAnew : Endorsement :=
  { cosigned with witnesses := [⟨[], [1]⟩, ⟨[9, 9], []⟩] }

/-- A snapshot in which the contract is deployed. -/
def deployed : Snapshot := .ofEntries [(contractKey .zero, [0])]

/-- A snapshot in which the contract is another one and a block is kept too. -/
def crowded : Snapshot := .ofEntries [(blockKey .zero, [5]), (contractKey .zero, [6])]

theorem verify_exact_cosigned :
    verify .empty orphan = .error (.unknownPreviousBlock orphan.previous) ∧
      verify .empty cosigned = .error (.contractNotFound .zero) ∧
      verify deployed cosigned = .ok () ∧ verify crowded signedAnew = .ok () := by
  have hdeployed : ∀ account, deployed.Deploys account ↔ contractKey account = contractKey .zero := by
    intro account
    simp [Snapshot.Deploys, deployed, Snapshot.ofEntries, Snapshot.get?_insert]
  have hcrowded : ∀ account, crowded.Deploys account ↔ contractKey account = contractKey .zero := by
    intro account
    simp [Snapshot.Deploys, crowded, Snapshot.ofEntries, Snapshot.get?_insert,
      contractKey_ne_blockKey]
  have hscript : ∀ s : Snapshot, BoundAt s cosigned.accounts cosigned.witnesses 0 :=
    fun s => boundAt_zero_cons.2 (.inl ⟨by decide, rfl⟩)
  have hok : verify deployed cosigned = .ok () := by
    refine ((verify_exact deployed cosigned).2 _ rfl).1.mpr ⟨rfl, fun i => ?_⟩
    rcases i with _ | _ | i
    · exact hscript deployed
    · exact boundAt_succ_cons.2 (boundAt_zero_cons.2 (.inr ⟨rfl, (hdeployed .zero).mpr rfl⟩))
    · exact fun account w haccount => by cases haccount
  refine ⟨(verify_exact .empty orphan).1 _ rfl, ?_, hok, ?_⟩
  · refine (((verify_exact .empty cosigned).2 _ rfl).2.1 _).mpr
      (.inr ⟨rfl, 1, .zero, ⟨[8], []⟩, ⟨rfl, rfl, ?_, fun j hj => ?_⟩, rfl⟩)
    · rintro (⟨hne, -⟩ | ⟨-, contract, hcontract⟩)
      · exact hne rfl
      · cases hcontract
    · obtain rfl : j = 0 := Nat.lt_one_iff.mp hj
      exact hscript .empty
  · refine (((verify_exact deployed cosigned).2 _ rfl).2.2 crowded signedAnew rfl rfl ?_).trans hok
    intro account _
    rw [hcrowded, hdeployed]

end Verifiable

end BoundedVm
