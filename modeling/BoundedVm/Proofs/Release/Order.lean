import BoundedVm.Proofs.Heap.Refusal

/-! # The order of releases

Handles can be given up in any order. What a release ends is told without an order by `Heap.Freed`, the
containers that are left hold what they held, and the counts of handles and the accounts follow from the
containers that there are. So two releases of the same handles come to the same heap.

* `Heap.Alike`: two heaps differ in nothing but counts of handles.
* `Alike.eq_of_accounted`: then they are equal if both count the same handles right.
* `release_perm`: the order of the handles does not matter.
* `release_shareAll`: handles that are made and given up leave no trace. -/

namespace BoundedVm

namespace Heap

variable {h h' : Heap} {held xs ys : List Item} {t : TrackerId}

/-! ## Sums over alike places -/

/-- Two rows of places weigh the same if they do so place by place. -/
theorem sumOf_congr {weight : Option Container → Nat} {l l' : List (Option Container)}
    (hlength : l'.length = l.length) (hplaces : ∀ i : Nat, weight l'[i]?.join = weight l[i]?.join) :
    sumOf weight l' = sumOf weight l := by
  induction l generalizing l' with
  | nil => rw [List.length_eq_zero_iff.mp hlength]
  | cons place l ih =>
    cases l' with
    | nil => cases hlength
    | cons place' l' =>
      rw [sumOf_cons, sumOf_cons, ih (Nat.succ.inj hlength) fun i => hplaces (i + 1)]
      exact congrArg (· + _) (hplaces 0)

theorem total_congr {weight : Option Container → Nat} (hcreated : h'.created = h.created)
    (hplaces : ∀ c, weight (h'.container? c) = weight (h.container? c)) :
    h'.total weight = h.total weight := by
  refine sumOf_congr hcreated fun c => ?_
  rw [Array.getElem?_toList, Array.getElem?_toList]
  exact hplaces c

/-! ## Heaps that are alike -/

/-- Two heaps that differ in nothing but counts of handles. -/
structure Alike (h h' : Heap) : Prop where
  created_eq : h'.created = h.created
  allocations_eq : h'.allocations = h.allocations
  trackers_eq : h'.trackers = h.trackers
  alive_eq : ∀ c, h'.alive c = h.alive c
  items_eq : ∀ c, h'.items c = h.items c
  owner_eq : ∀ c, h'.owner c = h.owner c

/-- Heaps that hold the same keep the same handles. -/
theorem Alike.kept_eq (heq : h.Alike h') (c : ContainerId) : h'.kept c = h.kept c := by
  refine total_congr heq.created_eq fun d => ?_
  rw [keptAt_container?, keptAt_container?, heq.items_eq]

theorem eq_of_container?_eq {k k' : Container} {c : ContainerId} (hk : h.container? c = some k)
    (hk' : h'.container? c = some k') (hitems : h'.items c = h.items c)
    (howner : h'.owner c = h.owner c) (hhandles : h'.handles c = h.handles c) : k' = k := by
  rw [items_of_container? hk, items_of_container? hk'] at hitems
  rw [owner_of_container? hk, owner_of_container? hk'] at howner
  rw [handles_of_container? hk, handles_of_container? hk'] at hhandles
  cases k
  cases k'
  simp_all

/-- **Counts follow.** Heaps that are alike and count the same handles right are equal. -/
theorem Alike.eq_of_accounted (heq : h.Alike h') (ha : h.Accounted held) (ha' : h'.Accounted held) :
    h' = h := by
  have hplaces : ∀ c, h'.container? c = h.container? c := by
    intro c
    have halive := heq.alive_eq c
    rw [alive_eq_isSome, alive_eq_isSome] at halive
    cases hk : h.container? c with
    | none =>
      rw [hk, Option.isSome_none, Option.isSome_eq_false_iff, Option.isNone_iff_eq_none] at halive
      exact halive
    | some k =>
      rw [hk, Option.isSome_some, Option.isSome_iff_exists] at halive
      obtain ⟨k', hk'⟩ := halive
      have hhandles : h'.handles c = h.handles c := by
        rw [ha.handles_eq, ha'.handles_eq, heq.kept_eq]
      rw [hk', eq_of_container?_eq hk hk' (heq.items_eq c) (heq.owner_eq c) hhandles]
  have hcontainers : h'.containers = h.containers := by
    refine Array.ext heq.created_eq fun c hc hc' => ?_
    have hplace := hplaces c
    rwa [container?, container?, Array.getElem?_eq_getElem hc, Array.getElem?_eq_getElem hc',
      Option.join_some, Option.join_some] at hplace
  obtain ⟨containers, trackers, allocations⟩ := h
  obtain ⟨containers', trackers', allocations'⟩ := h'
  obtain rfl : containers' = containers := hcontainers
  obtain rfl : trackers' = trackers := heq.trackers_eq
  obtain rfl : allocations' = allocations := heq.allocations_eq
  rfl

/-- The account of a tracker follows from its containers and from what a release keeps of it. -/
theorem tracker?_eq_of_balanced (hb : h.Balanced t) (hb' : h'.Balanced t)
    (hpopulation : h'.population t = h.population t)
    (hkept : (h'.tracker? t).map (fun a => (a.limit, a.peak, a.registry))
      = (h.tracker? t).map fun a => (a.limit, a.peak, a.registry)) :
    h'.tracker? t = h.tracker? t := by
  cases ht : h.tracker? t with
  | none =>
    rw [ht] at hkept
    exact Option.map_eq_none_iff.mp hkept
  | some account =>
    rw [ht, Option.map_some, Option.map_eq_some_iff] at hkept
    obtain ⟨account', ht', hfields⟩ := hkept
    have hlive : account'.live = account.live := by
      rw [(hb account ht).1, (hb' account' ht').1, hpopulation]
    rw [ht']
    cases account
    cases account'
    simp_all

/-! ## Releases -/

/-- What nothing that gives up a handle changes is not changed by a release. -/
theorem eq_of_release {β : Type} {f : Heap → β}
    (halter : ∀ h c (g : Container → Option Container), f (alter h c g) = f h)
    (hadjust : ∀ h t (g : Tracker → Tracker), f (adjust h t g) = f h) (xs : List Item) (h : Heap) :
    f (h.release xs) = f h := by
  have hdrop : ∀ x h, f (dropItem x h) = f h := by
    intro x h
    unfold dropItem dropHandle
    split
    · split
      · split
        · rw [halter, hadjust]
        · rw [halter]
      · rfl
    · rfl
  induction xs, h using release_induction with
  | nil h => rw [release_nil]
  | last x rest c h hlast ih =>
    rw [release_of_lastHandle?_eq_some hlast, ih, hdrop, takeItems, halter]
  | further x rest h hlast ih => rw [release_of_lastHandle?_eq_none hlast, ih, hdrop]

theorem created_release (xs : List Item) (h : Heap) : (h.release xs).created = h.created :=
  eq_of_release (fun _ _ _ => created_alter _ _) (fun _ _ _ => rfl) xs h

theorem allocations_release (xs : List Item) (h : Heap) :
    (h.release xs).allocations = h.allocations :=
  eq_of_release (fun _ _ _ => rfl) (fun _ _ _ => rfl) xs h

/-- Handles given up in a row are given up one part after the other. -/
theorem release_append (xs ys : List Item) (h : Heap) :
    h.release (xs ++ ys) = (h.release xs).release ys := by
  induction xs, h using release_induction with
  | nil h => rw [release_nil, List.nil_append]
  | last x rest c h hlast ih =>
    rw [List.cons_append, release_of_lastHandle?_eq_some hlast,
      release_of_lastHandle?_eq_some hlast, ← List.append_assoc, ih]
  | further x rest h hlast ih =>
    rw [List.cons_append, release_of_lastHandle?_eq_none hlast,
      release_of_lastHandle?_eq_none hlast, ih]

/-- What does not exist has no owner that it shows. -/
theorem owner_of_not_alive {c : ContainerId} (hc : h.alive c = false) : h.owner c = 0 := by
  rw [alive_eq_isSome, Option.isSome_eq_false_iff, Option.isNone_iff_eq_none] at hc
  rw [owner, hc]

/-- Reachable heaps with the same containers are alike if their trackers differ in nothing but the
count of containers, which follows from these. -/
theorem Reachable.alike {held' : List Item} (hr : h.Reachable held) (hr' : h'.Reachable held')
    (hcreated : h'.created = h.created) (hallocations : h'.allocations = h.allocations)
    (halive : ∀ c, h'.alive c = h.alive c)
    (hview : ∀ c, h'.alive c = true → h'.items c = h.items c ∧ h'.owner c = h.owner c)
    (hkept : ∀ t, (h'.tracker? t).map (fun a => (a.limit, a.peak, a.registry))
      = (h.tracker? t).map fun a => (a.limit, a.peak, a.registry)) : h.Alike h' := by
  have hsame : ∀ c, h'.items c = h.items c ∧ h'.owner c = h.owner c := by
    intro c
    cases hc : h'.alive c with
    | false =>
      have hc' := (halive c).symm.trans hc
      rw [items_of_not_alive hc, items_of_not_alive hc', owner_of_not_alive hc,
        owner_of_not_alive hc']
      exact ⟨rfl, rfl⟩
    | true => exact hview c hc
  have hpopulation : ∀ t, h'.population t = h.population t := by
    intro t
    refine total_congr hcreated fun c => ?_
    cases hc : h'.alive c with
    | false =>
      have hc' := (halive c).symm.trans hc
      rw [alive_eq_isSome, Option.isSome_eq_false_iff, Option.isNone_iff_eq_none] at hc hc'
      rw [hc, hc']
    | true =>
      rw [ownedAt_container? hc, ownedAt_container? ((halive c).symm.trans hc), (hsame c).2]
  refine ⟨hcreated, hallocations, ?_, halive, fun c => (hsame c).1, fun c => (hsame c).2⟩
  exact Array.ext_getElem? fun t =>
    tracker?_eq_of_balanced (hr.balanced t) (hr'.balanced t) (hpopulation t) (hkept t)

/-- The releases of the same handles leave heaps that are alike. -/
theorem Reachable.alike_release (hr : h.Reachable (xs ++ held)) (hp : xs.Perm ys) :
    (h.release xs).Alike (h.release ys) := by
  have hr' : h.Reachable (ys ++ held) := hr.perm (hp.append_right held)
  have halive : ∀ c, (h.release ys).alive c = (h.release xs).alive c := fun c => by
    rw [Bool.eq_iff_iff, alive_release_iff hr.accounted, alive_release_iff hr'.accounted]
  refine hr.release.alike hr'.release ?_ ?_ halive (fun c hc => ?_) fun t => ?_
  · rw [created_release, created_release]
  · rw [allocations_release, allocations_release]
  · obtain ⟨-, howner, hitems⟩ := eq_of_alive_release ((halive c).symm.trans hc)
    obtain ⟨-, howner', hitems'⟩ := eq_of_alive_release hc
    exact ⟨hitems'.trans hitems.symm, howner'.trans howner.symm⟩
  · rw [map_tracker?_release fun _ => rfl, map_tracker?_release fun _ => rfl]

/-- **Any order.** The order in which handles are given up does not matter. -/
theorem Reachable.release_perm (hr : h.Reachable (xs ++ held)) (hp : xs.Perm ys) :
    h.release ys = h.release xs := by
  have hr' : h.Reachable (ys ++ held) := hr.perm (hp.append_right held)
  exact (hr.alike_release hp).eq_of_accounted hr.release.accounted hr'.release.accounted

/-! ## Handles that are made and given up -/

theorem container?_share (n : Nat) (x : Item) (c : ContainerId) : (h.share n x).container? c
    = (h.container? c).map fun k => { k with handles := k.handles + n * handlesTo c [x] } := by
  by_cases hx : x.container? = some c
  · rw [share_of_container? hx, container?_alter_some, if_pos rfl, handlesTo_cons_of_eq hx,
      handlesTo_nil, Nat.zero_add, Nat.mul_one]
  · have hsame : (h.share n x).container? c = h.container? c := by
      cases hd : x.container? with
      | none => rw [share_of_leaf hd]
      | some d =>
        have hne : d ≠ c := fun hdc => hx (hdc ▸ hd)
        rw [share_of_container? hd, container?_alter, if_neg hne]
    rw [hsame, handlesTo_cons_of_ne hx, handlesTo_nil, Nat.mul_zero]
    cases h.container? c <;> rfl

/-- Each container counts the handles to it that are made. -/
theorem container?_shareAll (xs : List Item) (c : ContainerId) : (h.shareAll xs).container? c
    = (h.container? c).map fun k => { k with handles := k.handles + handlesTo c xs } := by
  induction xs generalizing h with
  | nil =>
    show h.container? c = _
    cases h.container? c <;> rfl
  | cons x xs ih =>
    have hsum : handlesTo c (x :: xs) = 1 * handlesTo c [x] + handlesTo c xs := by
      rw [← List.singleton_append, handlesTo_append, Nat.one_mul]
    refine (ih (h := h.share 1 x)).trans ?_
    rw [container?_share, Option.map_map, hsum]
    congr 1
    funext k
    rw [Function.comp_apply, Nat.add_assoc]

/-- What no further handle changes is not changed by further handles to several values. -/
theorem eq_of_shareAll {β : Type} {f : Heap → β} (hshare : ∀ h n x, f (share n x h) = f h)
    (xs : List Item) (h : Heap) : f (h.shareAll xs) = f h := by
  induction xs generalizing h with
  | nil => rfl
  | cons x xs ih => exact (ih (h.share 1 x)).trans (hshare h 1 x)

theorem created_shareAll (xs : List Item) (h : Heap) : (h.shareAll xs).created = h.created :=
  eq_of_shareAll (fun _ => created_share) xs h

theorem owner_shareAll (xs : List Item) (c : ContainerId) (h : Heap) :
    (h.shareAll xs).owner c = h.owner c :=
  eq_of_shareAll (f := (owner · c)) (fun _ n x => owner_share n x c) xs h

theorem allocations_shareAll (xs : List Item) (h : Heap) :
    (h.shareAll xs).allocations = h.allocations := by
  refine eq_of_shareAll (fun h n x => ?_) xs h
  cases hx : x.container? with
  | none => rw [share_of_leaf hx]
  | some c =>
    rw [share_of_container? hx]
    rfl

/-- **No trace.** Handles that are made and given up leave the heap as it was. -/
theorem Reachable.release_shareAll (hr : h.Reachable held) (hxs : ∀ x ∈ xs, h.Accessible held x) :
    (h.shareAll xs).release xs = h := by
  have hshared : (h.shareAll xs).Reachable (xs ++ held) := invariant_reachable.shareAll hr hxs
  have halive : ∀ c, ((h.shareAll xs).release xs).alive c = h.alive c := fun c => by
    rw [Bool.eq_iff_iff, alive_release_iff hshared.accounted,
      freed_congr (alive_shareAll _) (items_shareAll _), alive_shareAll]
    exact and_iff_left (not_freed_of_accounted hr.accounted c)
  have halike : h.Alike ((h.shareAll xs).release xs) := by
    refine hr.alike hshared.release ?_ ?_ halive (fun c hc => ?_) fun t => ?_
    · rw [created_release, created_shareAll]
    · rw [allocations_release, allocations_shareAll]
    · obtain ⟨-, howner, hitems⟩ := eq_of_alive_release hc
      exact ⟨hitems.trans (items_shareAll _ c), howner.trans (owner_shareAll _ c h)⟩
    · rw [map_tracker?_release fun _ => rfl, tracker?_shareAll]
  exact halike.eq_of_accounted hr.accounted hshared.release.accounted

end Heap

end BoundedVm
