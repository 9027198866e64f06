import BoundedVm.Heap.Convert
import BoundedVm.Proofs.Clone.Copy
import BoundedVm.Proofs.Heap.Handles
import Mathlib.Data.List.Perm.Basic

/-! # What the operations of the heap keep

Every operation of the heap is composed of a few: trackers are opened, values are made, handles are
copied and given up, containers are enrolled and discarded, and handles move between a container and the
outside. `Heap.Invariant` says of a relation between heaps and the handles held outside that these keep
it, and the lemmas here draw the conclusion for all others, each with the handles that it takes over and
hands over. Which containers there may be and what they may hold is the concern of some operations only,
so that an invariant names the effects that it allows.

* `Heap.Effect`: what not every operation does.
* `Heap.Invariant`: the relations that the operations keep.
* `Heap.Leaves`: what an operation leaves behind that may be refused. -/

namespace BoundedVm

namespace Heap

/-- Whether an item is held outside or kept in a container, so that a further handle to it can be
made. -/
def Accessible (h : Heap) (held : List Item) (x : Item) : Prop :=
  x ∈ held ∨ ∃ c, x ∈ h.items c

/-- What not every operation does. -/
inductive Effect where
  /-- A container is made, or one takes over handles. -/
  | store
  /-- The containers of a tracker are discarded. -/
  | discard (t : TrackerId)

/-- A relation between heaps and the handles held outside that operations keep, as long as they have no
effects but those that there may be. -/
structure Invariant (may : Effect → Prop) (P : Heap → List Item → Prop) : Prop where
  accounted {h : Heap} {held : List Item} (hr : P h held) : h.Accounted held
  /-- The order of the handles does not matter. -/
  perm {h : Heap} {held held' : List Item} (hr : P h held) (hp : held.Perm held') : P h held'
  openTracker {h : Heap} {held : List Item} (hr : P h held) (limit : Nat) :
    P (h.openTracker limit).2 held
  allocate {h : Heap} {held : List Item} (hr : P h held) : P h.allocate.2 held
  /-- A value that is no container is made. -/
  leaf {h : Heap} {held : List Item} {x : Item} (hr : P h held) (hx : x.container? = none) :
    P h (x :: held)
  share {h : Heap} {held : List Item} {x : Item} (hr : P h held) (hx : h.Accessible held x)
    (n : Nat) : P (h.share n x) (List.replicate n x ++ held)
  release {h : Heap} {held xs : List Item} (hr : P h (xs ++ held)) : P (h.release xs) held
  /-- A tracker that has room takes a further container. -/
  enroll (hmay : may .store) {h : Heap} {held : List Item} {xs : Array Item} {t : TrackerId}
    {account : Tracker} (hr : P h (xs.toList ++ held)) (ht : h.tracker? t = some account)
    (hroom : account.live < account.limit) (kind : Compound) :
    P (h.enroll t xs) (kind.item h.created :: held)
  /-- Handles move between a container and the outside; to move them out is no effect. -/
  exchange {h : Heap} {held held' : List Item} {c : ContainerId} {ys : Array Item}
    (hmay : may .store ∨ ∀ y ∈ ys, y ∈ h.items c) (hr : P h held) (hc : h.alive c = true)
    (hp : ((h.items c).toList ++ held).Perm (ys.toList ++ held')) :
    P (h.alter c fun k => some { k with items := ys }) held'
  discard {t : TrackerId} (hmay : may (.discard t)) {h : Heap} {held : List Item} (hr : P h held) :
    P (h.discard t).2 held

/-- The outcome of an operation keeps the relation, with the handles that it hands over if it is not
refused. -/
def Leaves {α : Type} (P : Heap → List Item → Prop) (held : List Item) (gives : α → List Item) :
    Except ValueFault α × Heap → Prop
  | (.ok a, h) => P h (gives a ++ held)
  | (.error _, h) => P h held

theorem alter_congr {h : Heap} {c : ContainerId} {f g : Container → Option Container}
    (hfg : ∀ k, h.container? c = some k → f k = g k) : h.alter c f = h.alter c g := by
  unfold Heap.alter
  congr 1
  -- the two differ at no place: only the one of the container is changed
  apply Array.ext_getElem?
  intro i
  rw [Array.getElem?_modify, Array.getElem?_modify]
  by_cases hi : c = i
  · subst hi
    rw [if_pos rfl, if_pos rfl]
    cases hk : h.containers[c]? with
    | none => rfl
    | some place =>
      cases place with
      | none => rfl
      | some k => simpa using hfg k (by rw [container?, hk]; rfl)
  · rw [if_neg hi, if_neg hi]

theorem perm_eraseIdx_append {xs : List Item} {i : Nat} (hi : i < xs.length) (held : List Item) :
    (xs ++ held).Perm (xs.eraseIdx i ++ ([xs[i]] ++ held)) :=
  ((List.getElem_cons_eraseIdx_perm hi).symm.append_right held).trans List.perm_middle.symm

theorem perm_set_append {xs : List Item} {i : Nat} (hi : i < xs.length) (x : Item)
    (held : List Item) : (xs ++ (x :: held)).Perm (xs.set i x ++ ([xs[i]] ++ held)) := by
  have hold := (perm_eraseIdx_append hi held).cons x
  have hnew := (List.set_perm_cons_eraseIdx hi x).append_right ([xs[i]] ++ held)
  exact List.perm_middle.trans (hold.trans hnew.symm)

namespace Invariant

variable {may : Effect → Prop} {P : Heap → List Item → Prop} {h : Heap} {held : List Item} {x : Item}
  {c : ContainerId}

/-- A container with a handle outside exists. -/
theorem alive_of_mem (hP : Invariant may P) (hr : P h held) (hx : x ∈ held)
    (hc : x.container? = some c) : h.alive c = true :=
  (hP.accounted hr).alive_of_mem hx hc

/-! ## Handles -/

/-- Further handles to values that are accessible are held outside. -/
theorem shareAll (hP : Invariant may P) {xs : List Item} (hr : P h held)
    (hxs : ∀ x ∈ xs, h.Accessible held x) : P (h.shareAll xs) (xs ++ held) := by
  induction xs generalizing h held with
  | nil => exact hr
  | cons x xs ih =>
    have hshared := hP.share hr (hxs x List.mem_cons_self) 1
    refine hP.perm (ih hshared fun y hy => ?_) List.perm_middle
    rcases hxs y (List.mem_cons_of_mem x hy) with hy | ⟨c, hy⟩
    · exact .inl (List.mem_cons_of_mem x hy)
    · exact .inr ⟨c, by rwa [items_share]⟩

/-! ## Changes of a container -/

/-- A change of the items of a container moves the handles that it adds or removes. -/
theorem alterItems (hP : Invariant may P) (hr : P h held) (hc : h.alive c = true)
    (f : Array Item → Array Item) (hmay : may .store ∨ ∀ y ∈ f (h.items c), y ∈ h.items c)
    {held' : List Item}
    (hp : ((h.items c).toList ++ held).Perm ((f (h.items c)).toList ++ held')) :
    P (h.alter c fun k => some { k with items := f k.items }) held' := by
  rw [alter_congr (g := fun k => some { k with items := f (h.items c) }) fun k hk => by
    rw [items_of_container? hk]]
  exact hP.exchange hmay hr hc hp

theorem takeItems (hP : Invariant may P) (hr : P h held) (hc : h.alive c = true) :
    P (h.takeItems c).2 ((h.takeItems c).1.toList ++ held) :=
  hP.exchange (.inr (by simp)) hr hc (.refl _)

theorem clear (hP : Invariant may P) (hr : P h held) (hc : h.alive c = true) : P (h.clear c) held :=
  hP.release (hP.takeItems hr hc)

theorem push (hP : Invariant may P) (hmay : may .store) (hr : P h (x :: held))
    (hc : h.alive c = true) : P (h.push c x) held := by
  refine hP.alterItems hr hc (·.push x) (.inl hmay) ?_
  rw [Array.toList_push, List.append_assoc]
  rfl

theorem pushCopies (hP : Invariant may P) (hmay : may .store) (hr : P h (x :: held))
    (hc : h.alive c = true) (n : Nat) : P (h.pushCopies c x n) held := by
  have hshared := hP.share hr (.inl List.mem_cons_self) n
  have hstored : P ((h.share n x).alter c fun k =>
      some { k with items := k.items ++ Array.replicate n x }) ([x] ++ held) := by
    refine hP.alterItems hshared (by rwa [alive_share]) (· ++ Array.replicate n x) (.inl hmay) ?_
    rw [Array.toList_append, Array.toList_replicate, List.append_assoc]
    rfl
  exact hP.release hstored

/-! ## Operations that may be refused -/

theorem create (hP : Invariant may P) (hmay : may .store) {xs : Array Item}
    (hr : P h (xs.toList ++ held)) (t : TrackerId) (kind : Compound) :
    Leaves P held (fun c => [kind.item c]) (h.create t xs) := by
  cases ht : h.tracker? t with
  | none =>
    rw [create_of_none ht]
    exact hP.release hr
  | some account =>
    by_cases hroom : account.live < account.limit
    · rw [create_of_lt ht hroom]
      exact hP.enroll hmay hr ht hroom kind
    · rw [create_of_le ht (Nat.le_of_not_lt hroom)]
      exact hP.release hr

theorem get (hP : Invariant may P) (hr : P h held) (c : ContainerId) (i : Nat) :
    Leaves P held (fun x => [x]) (h.get c i) := by
  cases hx : (h.items c)[i]? with
  | none =>
    rw [Heap.get, hx]
    exact hr
  | some x =>
    rw [Heap.get, hx]
    exact hP.share hr (.inr ⟨c, Array.mem_of_getElem? hx⟩) 1

theorem set (hP : Invariant may P) (hmay : may .store) (hr : P h (x :: held)) (c : ContainerId)
    (i : Nat) : Leaves P held (fun _ => []) (h.set c i x) := by
  cases hold : (h.items c)[i]? with
  | none =>
    rw [Heap.set, hold]
    exact hP.release hr
  | some old =>
    obtain ⟨hi, rfl⟩ := Array.getElem?_eq_some_iff.mp hold
    have hstored : P (h.alter c fun k => some { k with items := k.items.setIfInBounds i x })
        ([(h.items c)[i]] ++ held) := by
      refine hP.alterItems hr (alive_of_mem_items (Array.mem_of_getElem? hold))
        (·.setIfInBounds i x) (.inl hmay) ?_
      rw [Array.toList_setIfInBounds]
      exact perm_set_append hi x held
    rw [Heap.set, hold]
    exact hP.release hstored

theorem remove (hP : Invariant may P) (hr : P h held) (c : ContainerId) (i : Nat) :
    Leaves P held (fun x => [x]) (h.remove c i) := by
  cases hx : (h.items c)[i]? with
  | none =>
    rw [Heap.remove, hx]
    exact hr
  | some x =>
    rw [Heap.remove, hx]
    obtain ⟨hi, rfl⟩ := Array.getElem?_eq_some_iff.mp hx
    have herase : ((h.items c).eraseIdxIfInBounds i).toList = (h.items c).toList.eraseIdx i := by
      simp
    refine hP.alterItems hr (alive_of_mem_items (Array.mem_of_getElem? hx)) (·.eraseIdxIfInBounds i)
      (.inr fun y hy => ?_) ?_
    · rw [← Array.mem_toList_iff, herase] at hy
      exact Array.mem_toList_iff.mp (List.mem_of_mem_eraseIdx hy)
    · rw [herase]
      exact perm_eraseIdx_append hi held

theorem toArray (hP : Invariant may P) (hmay : may .store) (hr : P h held) (c : ContainerId) :
    Leaves P held (fun a => [Item.array a]) (h.toArray c) := by
  refine hP.create hmay (hP.shareAll hr fun x hx => ?_) (h.owner c) .array
  exact .inr ⟨c, Array.mem_toList_iff.mp hx⟩

theorem newInteger (hP : Invariant may P) (hr : P h held) (i : Integer) :
    P (h.newInteger i).2 ((h.newInteger i).1 :: held) :=
  hP.leaf (hP.allocate hr) rfl

theorem newBytes (hP : Invariant may P) (hr : P h held) (content : List UInt8) :
    P (h.newBytes content).2 ((h.newBytes content).1 :: held) :=
  hP.leaf (hP.allocate hr) rfl

theorem integerOf (hP : Invariant may P) (hr : P h held) (x : Item) :
    Leaves P held (fun y => [y]) (h.integerOf x) := by
  unfold Heap.integerOf
  split
  · exact hP.leaf hr rfl
  · split
    · exact hP.newInteger hr _
    · exact hr

/-- A value that has the kind already is shared, and every other result is new. -/
theorem convert (hP : Invariant may P) (hmay : may .store) (hr : P h held) (hx : x ∈ held)
    (target : Kind) : Leaves P held (fun y => [y]) (h.convert x target) := by
  unfold Heap.convert
  split
  · exact hP.share hr (.inl hx) 1
  · split
    · exact hP.leaf hr rfl
    · exact hP.newBytes hr _
    · exact hP.newInteger hr _
    · exact hP.newBytes hr _
    · cases bytesToBool _ with
      | ok b => exact hP.leaf hr rfl
      | error e => exact hr
    · split
      · exact hP.newInteger hr _
      · exact hr
    · exact hP.leaf hr rfl
    · split
      · rename_i hout
        exact (congrArg (Leaves P held fun a => [Item.array a]) hout).mp (hP.toArray hmay hr _)
      · rename_i hout
        exact (congrArg (Leaves P held fun a => [Item.array a]) hout).mp (hP.toArray hmay hr _)
    · exact hr

/-! ## The clone of a struct -/

/-- The loop that fills copies moves handles into containers that exist. -/
theorem fillCopies (hP : Invariant may P) (hmay : may .store) {before : Heap} (hb : before.WellFormed)
    {s target : ContainerId} {owner : TrackerId} {todo : List Item} {queue : CloneQueue}
    (hf : Filling before s owner target todo queue h) (hr : P h held) (budget : Nat) :
    P (h.fillCopies owner budget target todo queue).2 held := by
  induction budget, target, todo, queue, h using fillCopies_induction owner with
  | done budget target queue h hq =>
    rw [fillCopies_of_pop?_eq_none hq]
    exact hr
  | pop budget target queue h copy source rest hq ih =>
    rw [fillCopies_of_pop?_eq_some hq]
    exact ih (hf.pop hq) hr
  | spent target queue h x todo =>
    rw [fillCopies_zero_cons]
    exact hr
  | full budget target todo queue h source e h' hc =>
    obtain rfl : h' = h := eq_of_create_empty_eq_error hc
    rw [fillCopies_of_create_eq_error hc]
    exact hr
  | struct budget target todo queue h source copy h' hc ih =>
    rw [fillCopies_of_create_eq_ok hc]
    apply ih (hf.struct hb hc)
    -- the handle to the new copy moves into the current one
    obtain ⟨⟨account, ht, hroom⟩, rfl, rfl⟩ := create_eq_ok_iff.1 hc
    have hempty : P h ((#[] : Array Item).toList ++ held) := hr
    have henrolled : P (h.enroll owner #[]) (.struct h.created :: held) :=
      hP.enroll hmay hempty ht hroom .struct
    refine hP.push hmay henrolled ?_
    rw [alive_enroll, hf.alive_target, Bool.or_true]
  | leaf budget target todo queue h x hx ih =>
    rw [fillCopies_leaf hx]
    apply ih (hf.leaf hx)
    -- the leaf is still an element of the struct that it comes from
    obtain ⟨d, hd⟩ := hf.exists_mem_items List.mem_cons_self
    have hbefore : x ∈ before.items d := Array.mem_toList_iff.mp hd
    have hmem : x ∈ h.items d := by
      rw [hf.items_old (lt_created_of_alive (alive_of_mem_items hbefore))]
      exact hbefore
    have hshared : P (h.share 1 x) (x :: held) := hP.share hr (.inr ⟨d, hmem⟩) 1
    refine hP.push hmay hshared ?_
    rw [alive_share]
    exact hf.alive_target

theorem endClone (hP : Invariant may P) {root : ContainerId} {outcome : Except ValueFault Unit × Heap}
    (hr : P outcome.2 (.struct root :: held)) :
    Leaves P held (fun c => [Item.struct c]) (endClone root outcome) := by
  obtain ⟨result, after⟩ := outcome
  cases result with
  | ok _ => exact hr
  | error e =>
    have hroot : P after ([.struct root] ++ held) := hr
    exact hP.release hroot

theorem cloneStruct (hP : Invariant may P) (hmay : may .store) (hr : P h held) {s : ContainerId}
    (hs : h.alive s = true) (limits : Limits) :
    Leaves P held (fun c => [Item.struct c]) (h.cloneStruct s limits) := by
  have hempty : P h ((#[] : Array Item).toList ++ held) := hr
  have hcreated := hP.create hmay hempty (h.owner s) .struct
  cases hroot : h.create (h.owner s) #[] with
  | mk result h' =>
    rw [hroot] at hcreated
    cases result with
    | error e =>
      -- there was no room for the first copy
      rw [Heap.cloneStruct, hroot]
      exact hcreated
    | ok root =>
      have hlt : s < h.created := lt_created_of_alive hs
      have hwell : h.WellFormed := (hP.accounted hr).wellFormed
      rw [cloneStruct_of_create_eq_ok hlt hroot]
      obtain ⟨-, rfl, rfl⟩ := create_eq_ok_iff.1 hroot
      exact hP.endClone (hP.fillCopies hmay hwell (Filling.start hlt) hcreated _)

end Invariant

end Heap

end BoundedVm
