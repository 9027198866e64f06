import BoundedVm.Proofs.Heap.Invariant

/-! # The steps of the heap

An operation is a row of steps, each of which changes one container or one tracker: handles are given up
one at a time, a container is emptied before its last handle goes, and a discard forgets the
registrations of the tracker, empties the containers that it has found and gives up what they held. What
every step keeps holds in the middle of an operation too.

* `Heap.Step`: one step from a heap and the handles held outside.
* `Heap.Steps`: a row of steps with all moments that it goes through.
* `Heap.invariant_leads`: every operation is a row of steps. -/

namespace BoundedVm

namespace Heap

/-- The heap and the handles held outside at one moment. -/
structure Moment where
  heap : Heap
  held : List Item

/-- The empty heap, with no handles outside. -/
def Moment.empty : Moment := ⟨.empty, []⟩

/-- The heap after the registrations of a tracker have been forgotten. -/
def forget (t : TrackerId) (h : Heap) : Heap :=
  h.adjust t fun account => { account with registry := #[] }

/-- The containers that a discard finds exist, since those that do not are passed over. -/
theorem alive_of_mem_registered {h : Heap} {t : TrackerId} {c : ContainerId}
    (hc : c ∈ h.registered t) : h.alive c = true := by
  unfold registered at hc
  split at hc
  · exact (List.mem_filter.mp hc).2
  · cases hc

/-- One step, with no effects but those that there may be. -/
inductive Step (may : Effect → Prop) : Moment → Moment → Prop
  | perm {h : Heap} {held held' : List Item} (hp : held.Perm held') : Step may ⟨h, held⟩ ⟨h, held'⟩
  | openTracker {h : Heap} {held : List Item} (limit : Nat) :
    Step may ⟨h, held⟩ ⟨(h.openTracker limit).2, held⟩
  | allocate {h : Heap} {held : List Item} : Step may ⟨h, held⟩ ⟨h.allocate.2, held⟩
  | leaf {h : Heap} {held : List Item} {x : Item} (hx : x.container? = none) :
    Step may ⟨h, held⟩ ⟨h, x :: held⟩
  | share {h : Heap} {held : List Item} {x : Item} (hx : h.Accessible held x) (n : Nat) :
    Step may ⟨h, held⟩ ⟨h.share n x, List.replicate n x ++ held⟩
  /-- One handle is given up; the container of a last handle is empty. -/
  | drop {h : Heap} {held : List Item} {x : Item}
    (hlast : ∀ c, x.container? = some c → h.handles c = 1 → h.items c = #[]) :
    Step may ⟨h, x :: held⟩ ⟨h.dropItem x, held⟩
  | enroll {h : Heap} {held : List Item} {xs : Array Item} {t : TrackerId} {account : Tracker}
    (hmay : may .store) (ht : h.tracker? t = some account) (hroom : account.live < account.limit)
    (kind : Compound) :
    Step may ⟨h, xs.toList ++ held⟩ ⟨h.enroll t xs, kind.item h.created :: held⟩
  | exchange {h : Heap} {held held' : List Item} {c : ContainerId} {ys : Array Item}
    (hmay : may .store ∨ ∀ y ∈ ys, y ∈ h.items c) (hc : h.alive c = true)
    (hp : ((h.items c).toList ++ held).Perm (ys.toList ++ held')) :
    Step may ⟨h, held⟩ ⟨h.alter c fun k => some { k with items := ys }, held'⟩
  | forget {h : Heap} {held : List Item} {t : TrackerId} (hmay : may (.discard t)) :
    Step may ⟨h, held⟩ ⟨h.forget t, held⟩

/-- A row of steps, with the moments before its end, the latest first. -/
inductive Steps (may : Effect → Prop) (start : Moment) : List Moment → Moment → Prop
  | refl : Steps may start [] start
  | next {past : List Moment} {a b : Moment} (hr : Steps may start past a) (hs : Step may a b) :
    Steps may start (a :: past) b

variable {may : Effect → Prop} {start a b : Moment} {past : List Moment}

theorem accounted_empty : Moment.empty.heap.Accounted Moment.empty.held where
  handles_eq c := by simp [handles, container?, Moment.empty, Heap.empty, kept, total]
  handles_pos hc := by simp [alive, container?, Moment.empty, Heap.empty] at hc
  owner_lt hc := by simp [alive, container?, Moment.empty, Heap.empty] at hc

/-- A step stays a step if more effects are allowed. -/
theorem Step.mono {wider : Effect → Prop} (hs : Step may a b) (hmay : ∀ e, may e → wider e) :
    Step wider a b := by
  cases hs with
  | perm hp => exact .perm hp
  | openTracker limit => exact .openTracker limit
  | allocate => exact .allocate
  | leaf hx => exact .leaf hx
  | share hx n => exact .share hx n
  | drop hlast => exact .drop hlast
  | enroll hstore ht hroom kind => exact .enroll (hmay _ hstore) ht hroom kind
  | exchange hstore hc hp => exact .exchange (hstore.imp_left (hmay _)) hc hp
  | forget hdiscard => exact .forget (hmay _ hdiscard)

theorem Step.accounted (hs : Step may a b) (ha : a.heap.Accounted a.held) :
    b.heap.Accounted b.held := by
  cases hs with
  | perm hp => exact ha.perm hp
  | openTracker limit => exact ha.openTracker limit
  | allocate => exact ha.allocate
  | leaf hx => exact (Accounted.cons_iff_of_leaf hx).mpr ha
  | share hx n =>
    -- what can be got at exists, whether it is held outside or kept in a container
    refine ha.share (fun c hc => ?_) n
    rcases hx with hx | ⟨d, hx⟩
    · exact ha.alive_of_mem hx hc
    · exact ha.alive_of_mem_items hx hc
  | drop hlast => exact ha.dropItem hlast
  | enroll _ ht _ kind => exact ha.enroll ht kind
  | exchange _ hc hp => exact ha.exchange hc hp
  | forget => exact ha.adjust _ _

namespace Steps

theorem accounted (hr : Steps may start past b) (ha : start.heap.Accounted start.held) :
    b.heap.Accounted b.held := by
  induction hr with
  | refl => exact ha
  | next _ hs ih => exact hs.accounted ih

theorem mono {wider : Effect → Prop} (hr : Steps may start past b) (hmay : ∀ e, may e → wider e) :
    Steps wider start past b := by
  induction hr with
  | refl => exact .refl
  | next _ hs ih => exact ih.next (hs.mono hmay)

/-- Rows of steps are put one after the other. -/
theorem append {new : List Moment} (hr : Steps may start past a) (hnew : Steps may a new b) :
    Steps may start (new ++ past) b := by
  induction hnew with
  | refl => exact hr
  | next _ hs ih => exact ih.next hs

/-- A row of steps up to one of its moments, with those before it. -/
theorem upto {later earlier : List Moment} {now : Moment} (hr : Steps may start past b)
    (hnow : b :: past = later ++ now :: earlier) : Steps may start earlier now := by
  induction hr generalizing later with
  | refl =>
    obtain ⟨rfl, hcons⟩ := List.append_eq_singleton_iff.mp hnow.symm |>.resolve_right (by simp)
    cases hcons
    exact .refl
  | @next past a b hr hs ih =>
    cases later with
    | nil =>
      cases hnow
      exact hr.next hs
    | cons first later => exact ih (List.cons.inj hnow).2

/-- A row of steps leads to every moment in it and goes on from there. -/
theorem split (hr : Steps may start past b) (ha : a ∈ past) :
    ∃ earlier later, Steps may start earlier a ∧ Steps may a later b := by
  induction hr with
  | refl => cases ha
  | @next past _ _ hr hs ih =>
    rcases List.mem_cons.mp ha with rfl | ha
    · exact ⟨past, _, hr, .next .refl hs⟩
    · obtain ⟨earlier, later, hbefore, hafter⟩ := ih ha
      exact ⟨earlier, _, hbefore, hafter.next hs⟩

end Steps

/-! ## Operations as rows of steps -/

/-- Whether steps lead to a heap with some handles outside. -/
def Leads (may : Effect → Prop) (start : Moment) (h : Heap) (held : List Item) : Prop :=
  ∃ past, Steps may start past ⟨h, held⟩

namespace Leads

variable {h h' : Heap} {held held' : List Item}

theorem next (hr : Leads may start h held) (hs : Step may ⟨h, held⟩ ⟨h', held'⟩) :
    Leads may start h' held' := by
  obtain ⟨past, hr⟩ := hr
  exact ⟨_, hr.next hs⟩

theorem perm (hr : Leads may start h held) (hp : held.Perm held') : Leads may start h held' :=
  hr.next (.perm hp)

theorem accounted (hr : Leads may start h held) (ha : start.heap.Accounted start.held) :
    h.Accounted held := by
  obtain ⟨past, hr⟩ := hr
  exact hr.accounted ha

theorem takeItems {c : ContainerId} (hr : Leads may start h held) (hc : h.alive c = true) :
    Leads may start (h.takeItems c).2 ((h.takeItems c).1.toList ++ held) :=
  hr.next (.exchange (.inr (by simp)) hc (.refl _))

/-- The loop that gives up handles gives up one at each turn. -/
theorem release {xs : List Item} (hr : Leads may start h (xs ++ held))
    (ha : start.heap.Accounted start.held) : Leads may start (h.release xs) held := by
  induction xs, h using release_induction with
  | nil h =>
    rw [release_nil]
    exact hr
  | last x rest c h hlast ih =>
    -- the handles that the container kept are held before its last handle goes
    obtain ⟨hx, hone⟩ := Accounted.lastHandle?_eq_some_iff.1 hlast
    have hc : h.alive c = true := (hr.accounted ha).alive_of_mem List.mem_cons_self hx
    rw [release_of_lastHandle?_eq_some hlast]
    apply ih
    have htaken : Leads may start (h.takeItems c).2 (x :: ((h.items c).toList ++ rest ++ held)) := by
      refine (hr.takeItems hc).perm ?_
      rw [List.append_assoc]
      exact List.perm_middle
    refine htaken.next (.drop fun d hd _ => ?_)
    obtain rfl : c = d := Option.some.inj (hx.symm.trans hd)
    exact items_takeItems hc
  | further x rest h hlast ih =>
    rw [release_of_lastHandle?_eq_none hlast]
    apply ih
    refine hr.next (.drop fun c hx hone => ?_)
    rw [Accounted.lastHandle?_eq_some_iff.2 ⟨hx, hone⟩] at hlast
    cases hlast

theorem takeAll {found : List ContainerId} {taken : List Item}
    (hr : Leads may start h (taken ++ held)) (hfound : ∀ c ∈ found, h.alive c = true) :
    Leads may start (takeAll found taken h).2 ((takeAll found taken h).1 ++ held) := by
  induction found generalizing h taken with
  | nil => exact hr
  | cons c found ih =>
    have hc := hfound c List.mem_cons_self
    refine ih ?_ fun d hd => ?_
    · rw [List.append_assoc]
      exact hr.takeItems hc
    · rw [alive_takeItems]
      exact hfound d (List.mem_cons_of_mem c hd)

theorem discard {t : TrackerId} (hr : Leads may start h held) (hmay : may (.discard t))
    (ha : start.heap.Accounted start.held) : Leads may start (h.discard t).2 held := by
  have hforgot : Leads may start (h.forget t) ([] ++ held) := hr.next (.forget hmay)
  have hfound : ∀ c ∈ h.registered t, (h.forget t).alive c = true :=
    fun c hc => (alive_adjust t _ c).trans (alive_of_mem_registered hc)
  exact (hforgot.takeAll hfound).release ha

end Leads

/-- **Operations are rows of steps.** What steps lead to from an accounted heap is kept by every
operation that has no effects but those that there may be. -/
theorem invariant_leads (may : Effect → Prop) (ha : start.heap.Accounted start.held) :
    Invariant may (Leads may start) where
  accounted hr := hr.accounted ha
  perm := .perm
  openTracker hr limit := hr.next (.openTracker limit)
  allocate hr := hr.next .allocate
  leaf hr hx := hr.next (.leaf hx)
  share hr hx n := hr.next (.share hx n)
  release hr := hr.release ha
  enroll hmay _ _ _ _ _ hr ht hroom kind := hr.next (.enroll hmay ht hroom kind)
  exchange hmay hr hc hp := hr.next (.exchange hmay hc hp)
  discard hmay _ _ hr := hr.discard hmay ha

end Heap

end BoundedVm
