import BoundedVm.Proofs.Release.Order

/-! # Release by recursion

The plain way to count references is a recursion: a handle that is given up is taken off the count, and
where it was the last one the container ends and what it held is given up in its turn, before anything
else. The recursion goes as deep as containers hold one another, which the loop of `Heap.release` avoids;
it comes to the same heap.

* `Heap.releaseNested`: the recursion.
* `releaseNested_eq_release`: it does what the loop does, on every heap. -/

namespace BoundedVm

namespace Heap

variable {h : Heap} {x : Item} {c : ContainerId}

/-! ## The end of a container -/

theorem handles_takeItems (c d : ContainerId) : (h.takeItems c).2.handles d = h.handles d := by
  rw [takeItems, handles_eq_getD, container?_alter_some, handles_eq_getD]
  by_cases hcd : c = d
  · rw [if_pos hcd]
    cases h.container? d <;> rfl
  · rw [if_neg hcd]

/-- Taking the items out of containers changes no count. -/
theorem lastHandle?_takeItems (c : ContainerId) (x : Item) :
    (h.takeItems c).2.lastHandle? x = h.lastHandle? x := by
  simp only [lastHandle?, handles_takeItems]

/-- A container that ends may be emptied before or not. -/
theorem dropItem_takeItems (hx : h.lastHandle? x = some c) :
    (h.takeItems c).2.dropItem x = h.dropItem x := by
  obtain ⟨hxc, hone⟩ := Accounted.lastHandle?_eq_some_iff.1 hx
  have hc : h.alive c = true := Accounted.alive_of_handles_pos (hone ▸ Nat.one_pos)
  have hc' : (h.takeItems c).2.alive c = true := (alive_takeItems c c).trans hc
  have hone' : (h.takeItems c).2.handles c = 1 := (handles_takeItems c c).trans hone
  simp only [dropItem, hxc, hc, hc', if_true, dropHandle, hone, hone', Nat.le_refl,
    owner_takeItems]
  -- what was changed at the place of the container goes with it
  unfold takeItems alter adjust
  congr 1
  apply Array.ext_getElem?
  intro i
  simp only [Array.getElem?_modify]
  split
  · rw [Option.map_map]
    refine Option.map_congr fun place _ => ?_
    cases place <;> rfl
  · rfl

/-- The items of a container that ends are taken off those kept. -/
theorem itemCount_dropItem_of_lastHandle (hx : h.lastHandle? x = some c) :
    (h.dropItem x).itemCount + (h.items c).size ≤ h.itemCount := by
  have htaken : (h.takeItems c).2.itemCount + (h.items c).size = h.itemCount :=
    itemCount_takeItems c h
  have hdrop := itemCount_dropItem_le x (h.takeItems c).2
  rw [dropItem_takeItems hx] at hdrop
  omega

/-! ## The recursion -/

/-- Gives up handles by recursion. Where a handle is the last one, the container ends and the handles
that it held are given up before the next one of the row. -/
def releaseNested (row : List Item) (h : Heap) : { h' : Heap // h'.itemCount ≤ h.itemCount } :=
  match row with
  | [] => ⟨h, Nat.le_refl _⟩
  | x :: rest =>
    match hx : h.lastHandle? x with
    | some c =>
      have hitems := itemCount_dropItem_of_lastHandle hx
      match releaseNested (h.items c).toList (h.dropItem x) with
      | ⟨inner, hinner⟩ =>
        match releaseNested rest inner with
        | ⟨outer, houter⟩ => ⟨outer, houter.trans (hinner.trans (Nat.le_of_add_right_le hitems))⟩
    | none =>
      have hdrop := itemCount_dropItem_le x h
      match releaseNested rest (h.dropItem x) with
      | ⟨outer, houter⟩ => ⟨outer, houter.trans hdrop⟩
termination_by row.length + h.itemCount
decreasing_by
  all_goals
    simp only [Array.length_toList, List.length_cons]
    omega

/-- **Loop and recursion agree.** The handles of a container that ends are the next pending ones of the
loop, so that it gives up handles in the order of the recursion. -/
theorem releaseNested_eq_release (row : List Item) (h : Heap) :
    (releaseNested row h).1 = h.release row := by
  fun_induction releaseNested row h with
  | case1 h => exact (release_nil h).symm
  | case2 h x rest c hx _ inner _ hinner outer _ houter ihinner ihouter =>
    rw [hinner] at ihinner
    rw [houter] at ihouter
    rw [release_of_lastHandle?_eq_some hx, release_append, dropItem_takeItems hx]
    exact ihouter.trans (congrArg (release rest) ihinner)
  | case3 h x rest hx _ outer _ houter ihouter =>
    rw [houter] at ihouter
    rw [release_of_lastHandle?_eq_none hx]
    exact ihouter

end Heap

end BoundedVm
