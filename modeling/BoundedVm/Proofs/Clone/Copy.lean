import BoundedVm.Proofs.Clone.Filling
import BoundedVm.Proofs.Heap.Path
import Mathlib

/-! # What a clone is a copy of

A bounded clone that is not refused is a copy of its source along every path, in new structs only, and
leaves the source as it was. Sharing is not copied: different paths lead to different structs, so that
the copy is the unfolding of the source.

* `Filling.itemAt?_rel`: at the end of the loop every path leads from a copy to what mirrors the item to
  which it leads from the source.
* `Filling.itemAt?_injective`: from the first copy only one path leads to a struct.
* `cloneStruct_isIndependentCopy`: the two together, for the clone of a struct. -/

namespace BoundedVm

namespace Heap

/-! ## Independent copies -/

/-- What a copy has for an item of its source: a leaf is the same handle, and for a struct there is a
new struct of the same length, which a given tracker owns. -/
inductive Copied (before after : Heap) (owner : TrackerId) : Item → Item → Prop
  | leaf {x : Item} (hx : x.isStruct = false) : Copied before after owner x x
  | struct {d c : ContainerId} (hnew : before.created ≤ c) (halive : after.alive c = true)
    (howner : after.owner c = owner) (hsize : (after.items c).size = (before.items d).size) :
    Copied before after owner (.struct d) (.struct c)

/-- The struct `c` copies the struct `s` and everything below it: every path leads to the same place in
both, no two paths lead to one struct of the copy, and what existed before is unchanged. -/
structure IsIndependentCopy (before after : Heap) (s c : ContainerId) : Prop where
  mirrored : ∀ path, Option.Rel (Copied before after (before.owner s))
    (before.itemAt? (.struct s) path) (after.itemAt? (.struct c) path)
  unshared : ∀ p q d, after.itemAt? (.struct c) p = some (.struct d) →
    after.itemAt? (.struct c) q = some (.struct d) → p = q
  kept : ∀ d, before.alive d = true → after.alive d = true ∧ after.items d = before.items d

/-! ## Paths through copies -/

theorem option_rel_getElem? {α β : Type} {R : α → β → Prop} {xs : List α} {ys : List β}
    (hxy : List.Forall₂ R xs ys) (i : Nat) : Option.Rel R xs[i]? ys[i]? := by
  induction hxy generalizing i with
  | nil => exact .none
  | cons hab _ ih =>
    cases i with
    | zero => exact .some hab
    | succ i => exact ih i

theorem option_rel_imp {α β : Type} {R S : α → β → Prop} (hRS : ∀ a b, R a b → S a b)
    {a : Option α} {b : Option β} (hab : Option.Rel R a b) : Option.Rel S a b := by
  cases hab with
  | none => exact .none
  | some hab => exact .some (hRS _ _ hab)

namespace Filling

variable {before h : Heap} {s target : ContainerId} {owner : TrackerId} {queue : CloneQueue}

/-- A path leads from a copy to what mirrors the item to which it leads from the source. -/
theorem itemAt?_rel (hf : Filling before s owner target [] queue h) (hq : queue.pop? = none)
    {x y : Item} (hxy : Mirrors before.created (queue.sources s) x y) (path : List Nat) :
    Option.Rel (Mirrors before.created (queue.sources s)) (before.itemAt? x path)
      (h.itemAt? y path) := by
  induction path generalizing x y with
  | nil => exact .some hxy
  | cons k path ih =>
    cases hxy with
    | leaf hx =>
      -- no path leads on from a leaf
      rw [itemAt?_of_isStruct_eq_false hx, itemAt?_of_isStruct_eq_false hx]
      exact .none
    | @copy d i hd =>
      -- the first index leads to elements that mirror each other, or in both nowhere
      have helements := option_rel_getElem? (hf.forall₂_mirrors hq hd) k
      rw [itemAt?_cons, itemAt?_cons, children_struct, children_struct]
      cases hx : (before.items d).toList[k]? with
      | none =>
        rw [hx] at helements
        cases hy : (h.items (before.created + i)).toList[k]? with
        | none => exact .none
        | some y =>
          rw [hy] at helements
          cases helements
      | some x =>
        rw [hx] at helements
        cases hy : (h.items (before.created + i)).toList[k]? with
        | none =>
          rw [hy] at helements
          cases helements
        | some y =>
          rw [hy] at helements
          cases helements with
          | some hxy => exact ih hxy

/-- The first copy mirrors the struct that is cloned. -/
theorem mirrors_root (queue : CloneQueue) :
    Mirrors before.created (queue.sources s) (.struct s) (.struct before.created) :=
  .copy (i := 0) rfl

/-- The structs of the copy are copies. -/
theorem exists_copy (hf : Filling before s owner target [] queue h) (hq : queue.pop? = none)
    {path : List Nat} {c : ContainerId}
    (hc : h.itemAt? (.struct before.created) path = some (.struct c)) :
    ∃ i, i < (queue.sources s).length ∧ c = before.created + i := by
  have hrel := hf.itemAt?_rel hq (mirrors_root queue) path
  rw [hc] at hrel
  cases hx : before.itemAt? (.struct s) path with
  | none =>
    rw [hx] at hrel
    cases hrel
  | some x =>
    rw [hx] at hrel
    cases hrel with
    | some hxc => exact hxc.exists_of_struct

/-- No path but the empty one leads back to the first copy. -/
theorem itemAt?_append_singleton_ne_root (hf : Filling before s owner target [] queue h)
    (hq : queue.pop? = none) (path : List Nat) (k : Nat) :
    h.itemAt? (.struct before.created) (path ++ [k]) ≠ some (.struct before.created) := by
  intro hroot
  obtain ⟨e, he, hk⟩ := itemAt?_append_singleton_eq_some_iff.1 hroot
  obtain ⟨i, -, rfl⟩ := hf.exists_copy hq he
  exact hf.root_unshared i k hk

/-- Only one path leads from the first copy to a struct. The induction is on the path from its end,
since what is unique is the place that holds a copy. -/
theorem itemAt?_injective (hf : Filling before s owner target [] queue h) (hq : queue.pop? = none)
    {p q : List Nat} {d : ContainerId}
    (hpd : h.itemAt? (.struct before.created) p = some (.struct d))
    (hqd : h.itemAt? (.struct before.created) q = some (.struct d)) : p = q := by
  induction p using List.reverseRecOn generalizing q d with
  | nil =>
    cases hpd
    rcases List.eq_nil_or_concat q with rfl | ⟨q, l, rfl⟩
    · rfl
    · rw [List.concat_eq_append] at hqd
      exact absurd hqd (hf.itemAt?_append_singleton_ne_root hq q l)
  | append_singleton p k ih =>
    rcases List.eq_nil_or_concat q with rfl | ⟨q, l, rfl⟩
    · cases hqd
      exact absurd hpd (hf.itemAt?_append_singleton_ne_root hq p k)
    · -- the struct has one parent only and there one index, and only one path leads to the parent
      rw [List.concat_eq_append] at hqd ⊢
      obtain ⟨c, hc, hk⟩ := itemAt?_append_singleton_eq_some_iff.1 hpd
      obtain ⟨e, he, hl⟩ := itemAt?_append_singleton_eq_some_iff.1 hqd
      obtain ⟨i, -, rfl⟩ := hf.exists_copy hq hc
      obtain ⟨j, -, rfl⟩ := hf.exists_copy hq he
      obtain ⟨rfl, rfl⟩ := hf.parent_unique i j k l d hk hl
      rw [ih hc he]

/-- What mirrors an item of the source is a new struct of the same length or the leaf itself. -/
theorem copied_of_mirrors (hf : Filling before s owner target [] queue h) (hq : queue.pop? = none)
    {x y : Item} (hxy : Mirrors before.created (queue.sources s) x y) :
    Copied before h owner x y := by
  cases hxy with
  | leaf hx => exact .leaf hx
  | copy hd =>
    have hi := (List.getElem?_eq_some_iff.mp hd).1
    refine .struct (Nat.le_add_right _ _) (hf.alive_copy hi) (hf.owner_copy hi) ?_
    simpa using (hf.forall₂_mirrors hq hd).length_eq.symm

/-- At the end of the loop the first copy is an independent copy. -/
theorem isIndependentCopy (hf : Filling before s (before.owner s) target [] queue h)
    (hq : queue.pop? = none) : IsIndependentCopy before h s before.created where
  mirrored path := option_rel_imp (fun _ _ => hf.copied_of_mirrors hq)
    (hf.itemAt?_rel hq (mirrors_root queue) path)
  unshared _ _ _ := hf.itemAt?_injective hq
  kept _ hd :=
    have hlt := lt_created_of_alive hd
    ⟨(hf.alive_old hlt).trans hd, hf.items_old hlt⟩

end Filling

/-! ## The clone of a struct -/

variable {h : Heap} {s : ContainerId}

/-- A clone is a run of the loop on a heap with one copy more. -/
theorem cloneStruct_of_create_eq_ok (hs : s < h.created) {root : ContainerId} {h' : Heap}
    (hc : h.create (h.owner s) #[] = (.ok root, h')) (limits : Limits) :
    h.cloneStruct s limits = endClone root
      (h'.fillCopies (h.owner s) (limits.maxStackSize.toNat - 1) root (h.items s).toList .empty) := by
  obtain ⟨-, rfl, rfl⟩ := create_eq_ok_iff.1 hc
  unfold cloneStruct
  simp only [hc, items_enroll_empty, owner_enroll, if_neg (Nat.ne_of_lt hs)]

theorem endClone_eq_ok_iff {root c : ContainerId} {h' : Heap}
    {outcome : Except ValueFault Unit × Heap} :
    endClone root outcome = (.ok c, h') ↔ outcome = (.ok (), h') ∧ c = root := by
  obtain ⟨result, after⟩ := outcome
  cases result with
  | ok _ =>
    simp only [endClone, Prod.mk.injEq, Except.ok.injEq, true_and]
    constructor
    · rintro ⟨rfl, rfl⟩
      exact ⟨rfl, rfl⟩
    · rintro ⟨rfl, rfl⟩
      exact ⟨rfl, rfl⟩
  | error e => simp [endClone]

/-- A clone that is not refused ends with every copy filled. -/
theorem exists_filling_of_cloneStruct (hh : h.WellFormed) (hs : s < h.created) {limits : Limits}
    {c : ContainerId} {h' : Heap} (hc : h.cloneStruct s limits = (.ok c, h')) :
    c = h.created ∧ ∃ target queue,
      Filling h s (h.owner s) target [] queue h' ∧ queue.pop? = none := by
  cases hroot : h.create (h.owner s) #[] with
  | mk result h₁ =>
    cases result with
    | error e =>
      -- the first copy was refused
      rw [cloneStruct, hroot] at hc
      simp at hc
    | ok root =>
      rw [cloneStruct_of_create_eq_ok hs hroot, endClone_eq_ok_iff] at hc
      obtain ⟨hrun, rfl⟩ := hc
      obtain ⟨-, rfl, rfl⟩ := create_eq_ok_iff.1 hroot
      have hstart : Filling h s (h.owner s) h.created (h.items s).toList .empty
          (h.enroll (h.owner s) #[]) := .start hs
      obtain ⟨target, todo, queue, hf, hend⟩ :=
        hstart.fillCopies hh (limits.maxStackSize.toNat - 1)
      rw [hrun] at hf hend
      obtain ⟨rfl, hq⟩ := hend rfl
      exact ⟨rfl, target, queue, hf, hq⟩

/-- **A clone is an independent copy.** If the clone of a struct is not refused, every path through
structs leads to the same place in the copy and in the source: to the same handle if it is a leaf, and
else to structs of the same length, of which the one in the copy is new and belongs to the tracker of
the struct that was cloned. No two paths lead to one struct of the copy, and no container that existed
before has changed. -/
theorem cloneStruct_isIndependentCopy (hh : h.WellFormed) (hs : h.alive s = true)
    {limits : Limits} {c : ContainerId} {h' : Heap}
    (hc : h.cloneStruct s limits = (.ok c, h')) : IsIndependentCopy h h' s c := by
  obtain ⟨rfl, target, queue, hf, hq⟩ :=
    exists_filling_of_cloneStruct hh (lt_created_of_alive hs) hc
  exact hf.isIndependentCopy hq

/-- A struct that holds a struct of another tracker twice and an array that points back to it. -/
def diamond : Heap :=
  ⟨#[some ⟨#[.struct 1, .null, .struct 1, .array 2], 0, 2⟩, some ⟨#[.boolean true], 1, 2⟩,
      some ⟨#[.struct 0], 0, 1⟩],
    #[⟨8, 2, 2, #[0, 2]⟩, ⟨1, 1, 1, #[1]⟩], 0⟩

theorem cloneStruct_isIndependentCopy_diamond :
    diamond.WellFormed ∧ diamond.alive 0 = true
      ∧ (diamond.cloneStruct 0 .standard).1 = .ok 3
      ∧ IsIndependentCopy diamond (diamond.cloneStruct 0 .standard).2 0 3 := by
  have hwell : diamond.WellFormed := by decide
  have halive : diamond.alive 0 = true := by decide
  have hclone : (diamond.cloneStruct 0 .standard).1 = .ok 3 := by cbv
  exact ⟨hwell, halive, hclone,
    cloneStruct_isIndependentCopy hwell halive (Prod.ext hclone rfl)⟩

end Heap

end BoundedVm
