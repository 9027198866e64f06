import BoundedVm.Proofs.Heap.Freed

/-! # A refused clone

A clone may be refused when any part of it has been made. What has been made hangs together then: every
copy but the first is an element of an earlier copy, and nothing else holds it. When the first copy is
given up all of them end, and the containers that there were before are as they were.

* `Filling.descending_fillCopies`: copies are elements of earlier copies only.
* `Filling.freed_iff`: without the first copy exactly the copies are freed.
* `eq_of_cloneStruct_eq_error`: what is left of a refused clone. -/

namespace BoundedVm

namespace Heap

/-- Whether copies are held by earlier copies only. -/
def Descending (before h : Heap) : Prop :=
  ∀ (i j : Nat), ∀ x ∈ h.items (before.created + i), x.container? = some (before.created + j) → i < j

/-- What a container holds after an appending it held before, or it is the new element. -/
theorem mem_items_push {h : Heap} {c d : ContainerId} (hc : h.alive c = true) {x z : Item}
    (hz : z ∈ (h.push c x).items d) : z ∈ h.items d ∨ d = c ∧ z = x := by
  obtain ⟨k, hk⟩ := Array.getElem?_of_mem hz
  exact (getElem?_items_push hc hk).imp Array.mem_of_getElem? (And.imp_left And.left)

namespace Filling

variable {before h : Heap} {s target c : ContainerId} {owner : TrackerId} {todo : List Item}
  {queue : CloneQueue} {held : List Item}

/-- The loop puts a new copy into the current one, which is earlier. -/
theorem descending_fillCopies (hb : before.WellFormed)
    (hf : Filling before s owner target todo queue h) (hd : Descending before h) (budget : Nat) :
    Descending before (h.fillCopies owner budget target todo queue).2 := by
  induction budget, target, todo, queue, h using fillCopies_induction owner with
  | done budget target queue h hq =>
    rw [fillCopies_of_pop?_eq_none hq]
    exact hd
  | pop budget target queue h copy source rest hq ih =>
    rw [fillCopies_of_pop?_eq_some hq]
    exact ih (hf.pop hq) hd
  | spent target queue h x todo =>
    rw [fillCopies_zero_cons]
    exact hd
  | full budget target todo queue h source e h' hc =>
    obtain rfl : h' = h := eq_of_create_empty_eq_error hc
    rw [fillCopies_of_create_eq_error hc]
    exact hd
  | struct budget target todo queue h source copy h' hc ih =>
    rw [fillCopies_of_create_eq_ok hc]
    apply ih (hf.struct hb hc)
    intro i j x hx hxc
    obtain ⟨-, rfl, rfl⟩ := create_eq_ok_iff.1 hc
    have htarget : (h.enroll owner #[]).alive target = true := by
      rw [alive_enroll, hf.alive_target, Bool.or_true]
    rcases mem_items_push htarget hx with hold | ⟨hi, rfl⟩
    · rw [items_enroll_empty] at hold
      exact hd i j x hold hxc
    · have hnew : h.created = before.created + j := Option.some.inj hxc
      obtain rfl : (queue.sources s).length = j := Nat.add_left_cancel (hf.created_eq.symm.trans hnew)
      obtain rfl : i = queue.next := Nat.add_left_cancel (hi.trans hf.target_eq)
      exact hf.next_lt
  | leaf budget target todo queue h y hy ih =>
    rw [fillCopies_leaf hy]
    apply ih (hf.leaf hy)
    intro i j x hx hxc
    have htarget : (h.share 1 y).alive target = true := by
      rw [alive_share]
      exact hf.alive_target
    rcases mem_items_push htarget hx with hold | ⟨-, rfl⟩
    · rw [items_share] at hold
      exact hd i j x hold hxc
    · -- the leaf comes from a struct that existed before and names no copy
      obtain ⟨d, hmem⟩ := hf.exists_mem_items List.mem_cons_self
      exact absurd (hb.lt_created (Array.mem_toList_iff.mp hmem) hxc)
        (Nat.not_lt.mpr (Nat.le_add_right _ _))

/-- A container that existed before and was held by something still is. -/
theorem not_freed_of_lt (hf : Filling before s owner target todo queue h) (hb : before.Accounted held)
    (hc : c < before.created) : ¬ h.Freed held c := by
  intro hfreed
  induction hfreed with
  | intro halive houtside _ ih =>
    rw [hf.alive_old hc] at halive
    rcases hb.alive_iff_handle.1 halive with ⟨x, hx, hxc⟩ | ⟨d, hd, x, hx, hxc⟩
    · exact houtside x hx hxc
    · have hlt := lt_created_of_alive hd
      exact ih d x (by rwa [hf.items_old hlt]) hxc hlt

/-- Every copy is freed, since only earlier copies hold it. -/
theorem freed_copy (hf : Filling before s owner target todo queue h) (hb : before.Accounted held)
    (hd : Descending before h) {i : Nat} (hi : i < (queue.sources s).length) :
    h.Freed held (before.created + i) := by
  induction i using Nat.strong_induction_on with
  | _ i ih =>
    refine .intro (hf.alive_copy hi) (fun x hx hxc => ?_) fun d x hx hxc => ?_
    · exact absurd (lt_created_of_alive (hb.alive_of_mem hx hxc))
        (Nat.not_lt.mpr (Nat.le_add_right _ _))
    · by_cases hlt : d < before.created
      · -- what existed before holds no copy
        rw [hf.items_old hlt] at hx
        exact absurd (hb.wellFormed.lt_created hx hxc) (Nat.not_lt.mpr (Nat.le_add_right _ _))
      · obtain ⟨j, rfl⟩ := Nat.exists_eq_add_of_le (Nat.le_of_not_lt hlt)
        have hj := hd j i x hx hxc
        exact ih j hj (hj.trans hi)

/-- Without handles to copies outside exactly the containers that existed before are left. -/
theorem alive_and_not_freed_iff (hf : Filling before s owner target todo queue h)
    (hb : before.Accounted held) (hd : Descending before h) (c : ContainerId) :
    h.alive c = true ∧ ¬ h.Freed held c ↔ before.alive c = true := by
  by_cases hc : c < before.created
  · rw [hf.alive_old hc, and_iff_left (hf.not_freed_of_lt hb hc)]
  · obtain ⟨i, rfl⟩ := Nat.exists_eq_add_of_le (Nat.le_of_not_lt hc)
    refine iff_of_false (fun hkept => hkept.2 (hf.freed_copy hb hd ?_)) fun halive =>
      hc (lt_created_of_alive halive)
    have hlt := lt_created_of_alive hkept.1
    rw [hf.created_eq] at hlt
    exact Nat.lt_of_add_lt_add_left hlt

end Filling

/-! ## The clone of a struct -/

variable {h h' : Heap} {held : List Item} {s : ContainerId} {limits : Limits} {e : ValueFault}

/-- **A refused clone leaves no copy.** Wherever it was refused, the containers are those that there were
before, and they hold what they held. -/
theorem eq_of_cloneStruct_eq_error (ha : h.Accounted held) (hs : h.alive s = true)
    (hc : h.cloneStruct s limits = (.error e, h')) (c : ContainerId) :
    h'.alive c = h.alive c ∧ h'.items c = h.items c := by
  cases hroot : h.create (h.owner s) #[] with
  | mk result h₁ =>
    cases result with
    | error e' =>
      -- there was no room for the first copy
      rw [cloneStruct, hroot] at hc
      cases hc
      obtain rfl := eq_of_create_empty_eq_error hroot
      exact ⟨rfl, rfl⟩
    | ok root =>
      have hlt : s < h.created := lt_created_of_alive hs
      rw [cloneStruct_of_create_eq_ok hlt hroot] at hc
      obtain ⟨⟨account, ht, hroom⟩, rfl, rfl⟩ := create_eq_ok_iff.1 hroot
      have hempty : h.Accounted ((#[] : Array Item).toList ++ held) := ha
      have hstart : Filling h s (h.owner s) h.created (h.items s).toList .empty
          (h.enroll (h.owner s) #[]) := .start hlt
      have hnone : Descending h (h.enroll (h.owner s) #[]) := by
        intro i j x hx
        rw [items_enroll_empty,
          items_of_not_alive (not_alive_of_created_le (Nat.le_add_right _ _))] at hx
        simp at hx
      cases hrun : (h.enroll (h.owner s) #[]).fillCopies (h.owner s)
          (limits.maxStackSize.toNat - 1) h.created (h.items s).toList .empty with
      | mk result h₂ =>
        rw [hrun] at hc
        cases result with
        | ok _ => cases hc
        | error e' =>
          cases hc
          have hdescending := hstart.descending_fillCopies ha.wellFormed hnone
            (limits.maxStackSize.toNat - 1)
          obtain ⟨target, todo, queue, hf, -⟩ := hstart.fillCopies ha.wellFormed
            (limits.maxStackSize.toNat - 1)
          have hfilled := (invariant_leads (fun _ => True) (hempty.enroll ht .struct)).fillCopies trivial
            ha.wellFormed hstart ⟨[], .refl⟩ (limits.maxStackSize.toNat - 1)
          rw [hrun] at hdescending hf hfilled
          have hroot : h₂.Accounted ([.struct h.created] ++ held) :=
            hfilled.accounted (hempty.enroll ht .struct)
          have halive : (h₂.release [.struct h.created]).alive c = true ↔ h.alive c = true :=
            (alive_release_iff hroot c).trans (hf.alive_and_not_freed_iff ha hdescending c)
          refine ⟨Bool.eq_iff_iff.mpr halive, ?_⟩
          cases hbefore : h.alive c with
          | true =>
            rw [(eq_of_alive_release (halive.mpr hbefore)).2.2,
              hf.items_old (lt_created_of_alive hbefore)]
          | false =>
            rw [items_of_not_alive hbefore, items_of_not_alive]
            rw [← Bool.not_eq_true, halive, hbefore]
            exact Bool.false_ne_true

end Heap

end BoundedVm
