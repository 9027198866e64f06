import BoundedVm.Machine.Request
import BoundedVm.Proofs.Isolation.Hosting

/-! # Operations in a host

An operation on what a heap hosts does there what it does in the hosted heap: it is refused for the same
reason or has the same result but for numbers, and afterwards the heaps are related as before. Where an
operation makes something, the naming grows.

* `Heap.Hosts.release`: the loop that gives handles up, turn by turn.
* `Heap.Parallel`: the outcomes of an operation that may be refused. -/

namespace BoundedVm

/-! ## Related lists -/

section Lists

variable {α β : Type} {R : α → β → Prop} {xs : List α} {ys : List β} {x : α} {y : β}

theorem forall₂_replicate (n : Nat) (hxy : R x y) :
    List.Forall₂ R (List.replicate n x) (List.replicate n y) := by
  induction n with
  | zero => exact .nil
  | succ n ih => exact .cons hxy ih

theorem forall₂_set (h : List.Forall₂ R xs ys) (hxy : R x y) (i : Nat) :
    List.Forall₂ R (xs.set i x) (ys.set i y) := by
  induction h generalizing i with
  | nil => exact .nil
  | cons hab hrest ih =>
    cases i with
    | zero => exact .cons hxy hrest
    | succ i => exact .cons hab (ih i)

theorem forall₂_eraseIdx (h : List.Forall₂ R xs ys) (i : Nat) :
    List.Forall₂ R (xs.eraseIdx i) (ys.eraseIdx i) := by
  induction h generalizing i with
  | nil => exact .nil
  | cons hab hrest ih =>
    cases i with
    | zero => exact hrest
    | succ i => exact .cons hab (ih i)

end Lists

namespace Heap

namespace Hosts

variable {base h k : Heap} {w : Naming} {c d : ContainerId} {t u : TrackerId} {x y : Item}
  {xs ys : List Item}

/-! ## Handles -/

theorem share (e : Hosts base w h k) (hxy : w.Renames x y) (n : Nat) :
    Hosts base w (h.share n x) (k.share n y) := by
  obtain ⟨hx, hy⟩ | ⟨c, d, hx, hy, hcd⟩ := option_rel_cases hxy.container?
  · rw [share_of_leaf hx, share_of_leaf hy]
    exact e
  · rw [share_of_container? hx, share_of_container? hy]
    exact e.alter hcd fun a b hab => .some { hab with handles := congrArg (· + n) hab.handles }

theorem shareAll (e : Hosts base w h k) (hxy : List.Forall₂ w.Renames xs ys) :
    Hosts base w (h.shareAll xs) (k.shareAll ys) := by
  induction hxy generalizing h k with
  | nil => exact e
  | cons hab _ ih => exact ih (e.share hab 1)

theorem takeItems (e : Hosts base w h k) (hcd : w.containers.Maps c d) :
    Hosts base w (h.takeItems c).2 (k.takeItems d).2 :=
  e.alter hcd fun _ _ hab => .some { hab with items := .nil }

theorem dropHandle (e : Hosts base w h k) (hcd : w.containers.Maps c d)
    (hc : h.alive c = true) : Hosts base w (h.dropHandle c) (k.dropHandle d) := by
  unfold Heap.dropHandle
  rw [← e.handles_eq hcd]
  by_cases hlast : h.handles c ≤ 1
  · rw [if_pos hlast, if_pos hlast]
    refine Hosts.alter (e.adjust (e.owner hcd hc) fun a b hab => ?_) hcd fun _ _ _ => .none
    exact { hab with live := congrArg (· - 1) hab.live }
  · rw [if_neg hlast, if_neg hlast]
    exact e.alter hcd fun a b hab => .some { hab with handles := congrArg (· - 1) hab.handles }

theorem dropItem (e : Hosts base w h k) (hxy : w.Renames x y) :
    Hosts base w (h.dropItem x) (k.dropItem y) := by
  unfold Heap.dropItem
  obtain ⟨hx, hy⟩ | ⟨c, d, hx, hy, hcd⟩ := option_rel_cases hxy.container?
  · rw [hx, hy]
    exact e
  · simp only [hx, hy, ← e.alive_eq hcd]
    by_cases hc : h.alive c = true
    · rw [if_pos hc, if_pos hc]
      exact e.dropHandle hcd hc
    · rw [if_neg hc, if_neg hc]
      exact e

theorem lastHandle? (e : Hosts base w h k) (hxy : w.Renames x y) :
    Option.Rel w.containers.Maps (h.lastHandle? x) (k.lastHandle? y) := by
  unfold Heap.lastHandle?
  obtain ⟨hx, hy⟩ | ⟨c, d, hx, hy, hcd⟩ := option_rel_cases hxy.container?
  · rw [hx, hy]
    exact .none
  · rw [hx, hy, Option.filter_some, Option.filter_some, ← e.handles_eq hcd]
    split
    · exact .some hcd
    · exact .none

/-- **Giving handles up.** Each turn of the loop frees in the host what it frees in the hosted heap. -/
theorem release (e : Hosts base w h k) (hxy : List.Forall₂ w.Renames xs ys) :
    Hosts base w (h.release xs) (k.release ys) := by
  induction xs, h using release_induction generalizing ys k with
  | nil h =>
    cases hxy
    rw [release_nil, release_nil]
    exact e
  | last x rest c h hx ih =>
    obtain ⟨y, rest', hab, hrest, rfl⟩ := List.forall₂_cons_left_iff.mp hxy
    obtain ⟨hnone, -⟩ | ⟨c', d, hc, hd, hcd⟩ := option_rel_cases (e.lastHandle? hab)
    · exact absurd (hx.symm.trans hnone) (Option.some_ne_none c)
    · obtain rfl : c = c' := Option.some.inj (hx.symm.trans hc)
      rw [release_of_lastHandle?_eq_some hx, release_of_lastHandle?_eq_some hd]
      exact ih ((e.takeItems hcd).dropItem hab) (List.rel_append (e.items hcd) hrest)
  | further x rest h hx ih =>
    obtain ⟨y, rest', hab, hrest, rfl⟩ := List.forall₂_cons_left_iff.mp hxy
    obtain ⟨-, hy⟩ | ⟨c, d, hc, -⟩ := option_rel_cases (e.lastHandle? hab)
    · rw [release_of_lastHandle?_eq_none hx, release_of_lastHandle?_eq_none hy]
      exact ih (e.dropItem hab) hrest
    · exact absurd (hc.symm.trans hx) (Option.some_ne_none c)

/-! ## Containers -/

theorem push (e : Hosts base w h k) (hcd : w.containers.Maps c d) (hxy : w.Renames x y) :
    Hosts base w (h.push c x) (k.push d y) := by
  refine e.alter hcd fun a b hab => .some { hab with items := ?_ }
  rw [Array.toList_push, Array.toList_push]
  exact List.rel_append hab.items (.cons hxy .nil)

theorem pushCopies (e : Hosts base w h k) (hcd : w.containers.Maps c d) (hxy : w.Renames x y)
    (n : Nat) : Hosts base w (h.pushCopies c x n) (k.pushCopies d y n) := by
  refine Hosts.release (Hosts.alter (e.share hxy n) hcd fun a b hab => .some { hab with items := ?_ })
    (.cons hxy .nil)
  rw [Array.toList_append, Array.toList_append, Array.toList_replicate, Array.toList_replicate]
  exact List.rel_append hab.items (forall₂_replicate n hxy)

theorem clear (e : Hosts base w h k) (hcd : w.containers.Maps c d) :
    Hosts base w (h.clear c) (k.clear d) :=
  (e.takeItems hcd).release (e.items hcd)

/-! ## Discards -/

theorem takeAll {found found' : List ContainerId} (e : Hosts base w h k)
    (hfound : List.Forall₂ w.containers.Maps found found') (hxy : List.Forall₂ w.Renames xs ys) :
    List.Forall₂ w.Renames (h.takeAll found xs).1 (k.takeAll found' ys).1
      ∧ Hosts base w (h.takeAll found xs).2 (k.takeAll found' ys).2 := by
  induction hfound generalizing h k xs ys with
  | nil => exact ⟨hxy, e⟩
  | cons hcd _ ih => exact ih (e.takeItems hcd) (List.rel_append (e.items hcd) hxy)

theorem registered (e : Hosts base w h k) (htu : w.trackers.Maps t u) :
    List.Forall₂ w.containers.Maps (h.registered t) (k.registered u) := by
  obtain ⟨a, b, ha, hb, hab⟩ := e.exists_tracker? htu
  unfold Heap.registered
  rw [ha, hb]
  refine List.rel_filter (fun c d hcd => ?_) hab.registry
  show h.alive c = true ↔ k.alive d = true
  rw [e.alive_eq hcd]

/-- **Discarding.** The discard of a tracker empties its own containers and no others. -/
theorem discard (e : Hosts base w h k) (htu : w.trackers.Maps t u) :
    (h.discard t).1 = (k.discard u).1 ∧ Hosts base w (h.discard t).2 (k.discard u).2 := by
  have hfound := e.registered htu
  have hforgot : Hosts base w (h.adjust t fun account => { account with registry := #[] })
      (k.adjust u fun account => { account with registry := #[] }) :=
    e.adjust htu fun _ _ hab => { hab with registry := .nil }
  obtain ⟨hheld, htaken⟩ := hforgot.takeAll hfound .nil
  exact ⟨hfound.length_eq, htaken.release hheld⟩

end Hosts

end Heap

/-! ## Operations that may be refused -/

/-- Two outcomes are the same refusal, or they are results in a relation. -/
inductive SameOutcome {ε α : Type} (R : α → α → Prop) : Except ε α → Except ε α → Prop
  | ok {a b : α} (hab : R a b) : SameOutcome R (.ok a) (.ok b)
  | error (e : ε) : SameOutcome R (.error e) (.error e)

namespace Heap

/-- What an operation leaves behind in a hosted heap and in its host, under a naming that may have
grown. -/
def Parallel {α : Type} (base : Heap) (w : Naming) (R : Naming → α → α → Prop)
    (left right : Except ValueFault α × Heap) : Prop :=
  ∃ w', w.Grows base w' ∧ SameOutcome (R w') left.1 right.1 ∧ Hosts base w' left.2 right.2

section Parallel

variable {α : Type} {base h k : Heap} {w w' : Naming} {R : Naming → α → α → Prop} {a b : α}
  {left right : Except ValueFault α × Heap}

theorem Hosts.parallel_ok (e : Hosts base w h k) (hab : R w a b) :
    Parallel base w R (.ok a, h) (.ok b, k) :=
  ⟨w, .refl, .ok hab, e⟩

theorem Hosts.parallel_error (e : Hosts base w h k) (fault : ValueFault) :
    Parallel base w R (.error fault, h) (.error fault, k) :=
  ⟨w, .refl, .error fault, e⟩

theorem Parallel.of_grows (hw : w.Grows base w') (hp : Parallel base w' R left right) :
    Parallel base w R left right := by
  obtain ⟨w'', hw', hout, e⟩ := hp
  exact ⟨w'', hw.trans hw', hout, e⟩

/-- Both operations are refused, or both have results. -/
theorem Parallel.cases (hp : Parallel base w R left right) :
    (∃ w' a b h k, left = (.ok a, h) ∧ right = (.ok b, k) ∧ w.Grows base w' ∧ R w' a b
        ∧ Hosts base w' h k)
      ∨ ∃ w' fault h k, left = (.error fault, h) ∧ right = (.error fault, k) ∧ w.Grows base w'
        ∧ Hosts base w' h k := by
  obtain ⟨left, h⟩ := left
  obtain ⟨right, k⟩ := right
  obtain ⟨w', hw, hout, e⟩ := hp
  cases hout with
  | ok hab => exact .inl ⟨w', _, _, h, k, rfl, rfl, hw, hab, e⟩
  | error fault => exact .inr ⟨w', fault, h, k, rfl, rfl, hw, e⟩

end Parallel

namespace Hosts

variable {base h k : Heap} {w : Naming} {c d : ContainerId} {t u : TrackerId} {x y : Item}
  {xs ys : Array Item}

theorem create (e : Hosts base w h k) (htu : w.trackers.Maps t u)
    (hxy : List.Forall₂ w.Renames xs.toList ys.toList) :
    Parallel base w (fun w => w.containers.Maps) (h.create t xs) (k.create u ys) := by
  obtain ⟨a, b, ha, hb, hab⟩ := e.exists_tracker? htu
  unfold Heap.create
  simp only [ha, hb, ← hab.live, ← hab.limit]
  by_cases hfull : a.live ≥ a.limit
  · rw [if_pos hfull, if_pos hfull]
    exact (e.release hxy).parallel_error _
  · rw [if_neg hfull, if_neg hfull]
    obtain ⟨w', hw, hnew, e'⟩ := e.enroll htu hxy
    exact (e'.parallel_ok hnew).of_grows hw

theorem get (e : Hosts base w h k) (hcd : w.containers.Maps c d) (index : Nat) :
    Parallel base w Naming.Renames (h.get c index) (k.get d index) := by
  unfold Heap.get
  obtain ⟨hx, hy⟩ | ⟨x, y, hx, hy, hxy⟩ := option_rel_cases (e.getElem?_items hcd index)
  · rw [hx, hy, e.size_items hcd]
    exact e.parallel_error _
  · rw [hx, hy]
    exact (e.share hxy 1).parallel_ok hxy

theorem set (e : Hosts base w h k) (hcd : w.containers.Maps c d) (index : Nat)
    (hxy : w.Renames x y) :
    Parallel base w (fun _ _ _ => True) (h.set c index x) (k.set d index y) := by
  unfold Heap.set
  obtain ⟨hx, hy⟩ | ⟨old, old', hx, hy, hold⟩ := option_rel_cases (e.getElem?_items hcd index)
  · rw [hx, hy, e.size_items hcd]
    exact (e.release (.cons hxy .nil)).parallel_error _
  · rw [hx, hy]
    have hset : Hosts base w
        (h.alter c fun k => some { k with items := k.items.setIfInBounds index x })
        (k.alter d fun k => some { k with items := k.items.setIfInBounds index y }) := by
      refine e.alter hcd fun a b hab => .some { hab with items := ?_ }
      rw [Array.toList_setIfInBounds, Array.toList_setIfInBounds]
      exact forall₂_set hab.items hxy index
    exact ⟨w, .refl, .ok trivial, hset.release (.cons hold .nil)⟩

theorem remove (e : Hosts base w h k) (hcd : w.containers.Maps c d) (index : Nat) :
    Parallel base w Naming.Renames (h.remove c index) (k.remove d index) := by
  unfold Heap.remove
  obtain ⟨hx, hy⟩ | ⟨x, y, hx, hy, hxy⟩ := option_rel_cases (e.getElem?_items hcd index)
  · rw [hx, hy, e.size_items hcd]
    exact e.parallel_error _
  · rw [hx, hy]
    refine Hosts.parallel_ok (e.alter hcd fun a b hab => .some { hab with items := ?_ }) hxy
    rw [Array.toList_eraseIdxIfInBounds, Array.toList_eraseIdxIfInBounds]
    exact forall₂_eraseIdx hab.items index

theorem toArray (e : Hosts base w h k) (hcd : w.containers.Maps c d) (hc : h.alive c = true) :
    Parallel base w (fun w => w.containers.Maps) (h.toArray c) (k.toArray d) :=
  (e.shareAll (e.items hcd)).create (e.owner hcd hc) (e.items hcd)

/-- Each level is created under the same names as the one inside it, and one more. -/
theorem nest (e : Hosts base w h k) (htu : w.trackers.Maps t u) (kind : Compound)
    {before before' after after' : List Item} (hbefore : List.Forall₂ w.Renames before before')
    (hafter : List.Forall₂ w.Renames after after') (copies depth : Nat)
    (hcd : w.containers.Maps c d) :
    Parallel base w (fun w => w.containers.Maps) (h.nest t kind before after copies depth c)
      (k.nest u kind before' after' copies depth d) := by
  induction depth generalizing w h k c d with
  | zero => exact e.parallel_ok hcd
  | succ depth ih =>
    have hinner : w.Renames (kind.item c) (kind.item d) := .item kind hcd
    have hready := (((e.shareAll hbefore).share hinner copies).shareAll hafter).release
      (.cons hinner .nil)
    have hitems : List.Forall₂ w.Renames
        (before.toArray ++ Array.replicate copies (kind.item c) ++ after.toArray).toList
        (before'.toArray ++ Array.replicate copies (kind.item d) ++ after'.toArray).toList := by
      simp only [Array.toList_append, Array.toList_replicate]
      exact List.rel_append (List.rel_append hbefore (forall₂_replicate copies hinner)) hafter
    unfold Heap.nest
    obtain ⟨w', c', d', h', k', hleft, hright, hw, hcd', e'⟩
        | ⟨w', fault, h', k', hleft, hright, hw, e'⟩ :=
      (hready.create htu hitems).cases
    · simp only [hleft, hright]
      exact (ih e' (htu.mono hw.trackers) (Naming.forall₂_mono hbefore hw)
        (Naming.forall₂_mono hafter hw) hcd').of_grows hw
    · simp only [hleft, hright]
      exact (e'.parallel_error fault).of_grows hw

/-! ## Conversions -/

theorem newInteger (e : Hosts base w h k) (i : Integer) :
    Parallel base w Naming.Renames (.ok (h.newInteger i).1, (h.newInteger i).2)
      (.ok (k.newInteger i).1, (k.newInteger i).2) := by
  obtain ⟨w', hw, hnew, e'⟩ := e.allocate
  exact (e'.parallel_ok (.integer hnew i)).of_grows hw

theorem newBytes (e : Hosts base w h k) (content : List UInt8) :
    Parallel base w Naming.Renames (.ok (h.newBytes content).1, (h.newBytes content).2)
      (.ok (k.newBytes content).1, (k.newBytes content).2) := by
  obtain ⟨w', hw, hnew, e'⟩ := e.allocate
  exact (e'.parallel_ok (.bytes hnew content)).of_grows hw

/-- An integer is made unless there is none to make. -/
theorem newInteger_of (e : Hosts base w h k) (made : Except ValueFault Integer) :
    Parallel base w Naming.Renames
      (match made with
        | .ok i => (.ok (h.newInteger i).1, (h.newInteger i).2)
        | .error fault => (.error fault, h))
      (match made with
        | .ok i => (.ok (k.newInteger i).1, (k.newInteger i).2)
        | .error fault => (.error fault, k)) := by
  cases made with
  | ok i => exact e.newInteger i
  | error fault => exact e.parallel_error fault

theorem integerOf (e : Hosts base w h k) (hxy : w.Renames x y) :
    Parallel base w Naming.Renames (h.integerOf x) (k.integerOf y) := by
  cases hxy with
  | integer hab i => exact e.parallel_ok (.integer hab i)
  | boolean b => exact e.newInteger _
  | bytes hab content => exact e.newInteger_of _
  | null => exact e.parallel_error _
  | pointer script position => exact e.parallel_error _
  | array hcd => exact e.parallel_error _
  | struct hcd => exact e.parallel_error _

theorem convert (e : Hosts base w h k) (hxy : w.Renames x y) (target : Kind)
    (hx : ∀ c, x.container? = some c → h.alive c = true) :
    Parallel base w Naming.Renames (h.convert x target) (k.convert y target) := by
  unfold Heap.convert
  rw [← hxy.kind_eq]
  by_cases hkind : x.kind = target
  · rw [if_pos hkind, if_pos hkind]
    exact (e.share hxy 1).parallel_ok hxy
  · rw [if_neg hkind, if_neg hkind]
    cases hxy with
    | null => exact e.parallel_error _
    | boolean b =>
      cases target with
      | integer => exact e.newInteger _
      | byteString => exact e.newBytes _
      | _ => exact e.parallel_error _
    | integer hab i =>
      cases target with
      | boolean => exact e.parallel_ok (.boolean _)
      | byteString => exact e.newBytes _
      | _ => exact e.parallel_error _
    | bytes hab content =>
      cases target with
      | boolean =>
        show Parallel base w Naming.Renames ((bytesToBool content).map .boolean, h)
          ((bytesToBool content).map .boolean, k)
        cases bytesToBool content with
        | ok b => exact e.parallel_ok (.boolean b)
        | error fault => exact e.parallel_error fault
      | integer => exact e.newInteger_of _
      | _ => exact e.parallel_error _
    | pointer script position =>
      cases target with
      | boolean => exact e.parallel_ok (.boolean true)
      | _ => exact e.parallel_error _
    | array hcd => exact e.parallel_error _
    | @struct c d hcd =>
      cases target with
      | array =>
        dsimp only
        obtain ⟨w', a, b, h', k', hleft, hright, hw, hab, e'⟩
            | ⟨w', fault, h', k', hleft, hright, hw, e'⟩ :=
          (e.toArray hcd (hx c rfl)).cases
        · rw [hleft, hright]
          exact (e'.parallel_ok (.array hab)).of_grows hw
        · rw [hleft, hright]
          exact (e'.parallel_error fault).of_grows hw
      | _ => exact e.parallel_error _

end Hosts

end Heap

end BoundedVm
