import BoundedVm.Proofs.Ledger.RoundTrip

/-! # Identities of objects

The identity of an object is the hash of its unsigned form, and so it stands for what the object holds
besides its witnesses. Two objects whose contents differ have different unsigned forms, whatever their
fields hold, and could share an identity only through two messages of one hash. To sign an object anew,
or to write it and read it back, never changes its identity.

* `Verifiable.Edit`: what may be done to an object without changing its content.
* `Verifiable.Lawful.encodeUnsigned_edited`: no row of edits changes the unsigned form.
* `Verifiable.id_namesContent`: what an identity stands for, for payloads and for headers. -/

namespace BoundedVm

/-- Whether two different messages have one hash. -/
def Sha256.Collide (message message' : List UInt8) : Prop :=
  message ≠ message' ∧ digest message = digest message'

namespace Verifiable

/-- A change to the witnesses of an object. -/
inductive Edit where
  | push (w : Witness)
  | replace (index : Nat) (w : Witness)
  | remove (index : Nat)
  | clear
  | reverse
  /-- The object is read anew from what it is written as. -/
  | reload

section

variable {α : Type} [Verifiable α]

/-- The object after an edit. An edit where there is no witness changes nothing, nor does a reload that
is refused. -/
def Edit.apply (x : α) : Edit → α
  | push w => withWitnesses (witnesses x ++ [w]) x
  | replace index w => withWitnesses ((witnesses x).set index w) x
  | remove index => withWitnesses ((witnesses x).eraseIdx index) x
  | clear => withWitnesses [] x
  | reverse => withWitnesses (witnesses x).reverse x
  | reload =>
    match ofBytes (encode x) with
    | .ok y => y
    | .error _ => x

/-- The object after some edits, the first of the list made first. -/
def edited (edits : List Edit) (x : α) : α :=
  edits.foldl Edit.apply x

/-- Identities that stand for the contents of objects: the unsigned form tells contents apart and is
read back without witnesses, and no edit of the witnesses changes the identity. -/
structure NamesContent (SameContent : α → α → Prop) (Fits : α → Prop) : Prop where
  encodeUnsigned_eq_iff (x y : α) : encodeUnsigned x = encodeUnsigned y ↔ SameContent x y
  id_eq_iff (x y : α) :
    id x = id y ↔ SameContent x y ∨ Sha256.Collide (encodeUnsigned x) (encodeUnsigned y)
  id_edited (edits : List Edit) (x : α) : id (edited edits x) = id x
  readUnsigned_encodeUnsigned (x : α) : Fits x →
    readUnsigned (encodeUnsigned x) = .ok (withWitnesses [] x) [] ∧ id (withWitnesses [] x) = id x

variable {Fits : α → Prop}

/-- The unsigned form stands for an object without its witnesses. -/
theorem Lawful.encodeUnsigned_eq_iff (h : Lawful Fits) {x y : α} :
    encodeUnsigned x = encodeUnsigned y ↔ withWitnesses [] x = withWitnesses [] y := by
  constructor
  · intro heq
    exact (h.encodeUnsigned_append_inj (congrArg (· ++ []) heq)).1
  · intro heq
    rw [← h.encodeUnsigned_withWitnesses [] x, heq, h.encodeUnsigned_withWitnesses]

/-- An edit changes no more than the witnesses. -/
theorem Lawful.encodeUnsigned_apply (h : Lawful Fits) (x : α) (e : Edit) :
    encodeUnsigned (e.apply x) = encodeUnsigned x := by
  cases e with
  | push w => exact h.encodeUnsigned_withWitnesses _ x
  | replace index w => exact h.encodeUnsigned_withWitnesses _ x
  | remove index => exact h.encodeUnsigned_withWitnesses _ x
  | clear => exact h.encodeUnsigned_withWitnesses _ x
  | reverse => exact h.encodeUnsigned_withWitnesses _ x
  | reload =>
    -- what is read back is the object itself
    rw [Edit.apply]
    split
    · rename_i y hy
      rw [(h.ofBytes_encode_eq_ok_iff.1 hy).2]
    · rfl

theorem Lawful.encodeUnsigned_edited (h : Lawful Fits) (edits : List Edit) (x : α) :
    encodeUnsigned (edited edits x) = encodeUnsigned x := by
  induction edits generalizing x with
  | nil => rfl
  | cons e edits ih => exact (ih (e.apply x)).trans (h.encodeUnsigned_apply x e)

/-- Objects of one unsigned form have one identity. -/
theorem id_congr {x y : α} (heq : encodeUnsigned x = encodeUnsigned y) : id x = id y := by
  rw [id, id, heq]

/-- Objects of one identity have one unsigned form or two that collide. -/
theorem id_eq_iff {x y : α} :
    id x = id y
      ↔ encodeUnsigned x = encodeUnsigned y ∨ Sha256.Collide (encodeUnsigned x) (encodeUnsigned y) := by
  constructor
  · intro heq
    have hdigest : Sha256.digest (encodeUnsigned x) = Sha256.digest (encodeUnsigned y) :=
      congrArg Digest.bytes heq
    by_cases hform : encodeUnsigned x = encodeUnsigned y
    · exact .inl hform
    · exact .inr ⟨hform, hdigest⟩
  · rintro (hform | ⟨-, hdigest⟩)
    · exact id_congr hform
    · exact Digest.ext hdigest

theorem Lawful.namesContent (h : Lawful Fits) {SameContent : α → α → Prop}
    (hcontent : ∀ x y : α, withWitnesses [] x = withWitnesses [] y ↔ SameContent x y) :
    NamesContent SameContent Fits := by
  have hform : ∀ x y : α, encodeUnsigned x = encodeUnsigned y ↔ SameContent x y :=
    fun x y => h.encodeUnsigned_eq_iff.trans (hcontent x y)
  refine ⟨hform, fun x y => ?_, fun edits x => ?_, fun x hx => ⟨?_, ?_⟩⟩
  · rw [id_eq_iff, hform]
  · exact id_congr (h.encodeUnsigned_edited edits x)
  · have hread := h.readUnsigned_encodeUnsigned hx []
    rwa [List.append_nil] at hread
  · exact id_congr (h.encodeUnsigned_withWitnesses [] x)

end

end Verifiable

/-! ## Payloads and headers -/

/-- Whether two payloads hold the same besides their witnesses. -/
def ExtensiblePayload.SameContent (p q : ExtensiblePayload) : Prop :=
  p.category = q.category ∧ p.validFrom = q.validFrom ∧ p.validUntil = q.validUntil ∧
    p.sender = q.sender ∧ p.data = q.data

/-- Whether two headers hold the same besides their witnesses. -/
def Header.SameContent (h g : Header) : Prop :=
  h.version = g.version ∧ h.previous = g.previous ∧ h.merkleRoot = g.merkleRoot ∧
    h.timestamp = g.timestamp ∧ h.nonce = g.nonce ∧ h.index = g.index ∧
    h.primaryIndex = g.primaryIndex ∧ h.nextConsensus = g.nextConsensus

/-- **An identity stands for the content of an object.** Two payloads, or two headers, have one unsigned
form if and only if they agree in every field but their witnesses, so that they have one identity only
then or when their unsigned forms collide. No row of edits to the witnesses and of reloads changes an
identity, and an unsigned form within the bounds of its reader is read back, to its end, as the object
without witnesses, which has the same identity. -/
theorem Verifiable.id_namesContent :
    NamesContent ExtensiblePayload.SameContent ExtensiblePayload.Fits ∧
      NamesContent Header.SameContent Header.Fits := by
  constructor
  · refine ExtensiblePayload.lawful.namesContent fun p q => ?_
    show { p with witnesses := [] } = { q with witnesses := [] } ↔ p.SameContent q
    simp only [ExtensiblePayload.mk.injEq, ExtensiblePayload.SameContent, and_true]
  · refine Header.lawful.namesContent fun h g => ?_
    show { h with witnesses := [] } = { g with witnesses := [] } ↔ h.SameContent g
    simp only [Header.mk.injEq, Header.SameContent, and_true]

end BoundedVm
