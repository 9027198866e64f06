import BoundedVm.Proofs.Heap.Entries
import Mathlib.Data.Fintype.EquivFin
import Mathlib.Logic.Relation

/-! # What a discard reclaims

A discard empties the containers that are registered with the tracker, which are those made since the
last discard, and leaves all others as they are. Containers that hold one another in a circle do not end
when the handles from outside have gone; once there is no such circle among the containers of a tracker,
none of them is left then.

* `Heap.items_discard`: what is left of the items after a discard.
* `Heap.RegisteredFrom`: the registry knows exactly the containers from a number on.
* `Heap.HasCycle`: containers hold one another in a circle.
* `Heap.population_eq_zero_of_unheld`: without a circle and handles from outside nothing is left. -/

namespace BoundedVm

namespace Heap

variable {h h' : Heap} {t : TrackerId} {c : ContainerId}

/-! ## What becomes of a container -/

theorem not_alive_dropItem_of_lastHandle {x : Item} (hx : h.lastHandle? x = some c) :
    ((h.takeItems c).2.dropItem x).alive c = false := by
  obtain ⟨hxc, hone⟩ := Accounted.lastHandle?_eq_some_iff.1 hx
  obtain ⟨k, hk⟩ := alive_iff.1 (Accounted.alive_of_handles_pos (hone ▸ Nat.one_pos))
  have hhandles : (h.takeItems c).2.handles c = 1 := by
    rw [takeItems, handles_alter_some hk, if_pos rfl, ← hone, handles_of_container? hk]
  have hc : (h.takeItems c).2.alive c = true := by
    rw [alive_takeItems]
    exact alive_iff.2 ⟨k, hk⟩
  simp only [dropItem, hxc, hc, if_true, dropHandle, hhandles, Nat.le_refl]
  rw [alive_alter_none, decide_eq_false (not_not.mpr rfl), Bool.false_and]

theorem items_takeItems_of_ne {d : ContainerId} (hd : c ≠ d) :
    (h.takeItems d).2.items c = h.items c := by
  rw [takeItems, items_eq_getD, container?_alter_some, if_neg (Ne.symm hd), items_eq_getD]

theorem owner_takeItems (d : ContainerId) : (h.takeItems d).2.owner c = h.owner c :=
  owner_alter_some (fun k => { k with items := #[] }) (fun _ => rfl) d c

/-- What exists after handles have been given up is as it was, but for its handles. -/
theorem eq_of_alive_release {xs : List Item} (hc : (h.release xs).alive c = true) :
    h.alive c = true ∧ (h.release xs).owner c = h.owner c ∧ (h.release xs).items c = h.items c := by
  induction xs, h using release_induction with
  | nil h =>
    rw [release_nil] at hc ⊢
    exact ⟨hc, rfl, rfl⟩
  | last x rest d h hlast ih =>
    rw [release_of_lastHandle?_eq_some hlast] at hc ⊢
    obtain ⟨halive, howner, hitems⟩ := ih hc
    -- the container that was emptied has ended
    have hne : c ≠ d := by
      rintro rfl
      rw [not_alive_dropItem_of_lastHandle hlast] at halive
      cases halive
    obtain ⟨hbefore, hsame, hkept⟩ := eq_of_alive_dropItem halive
    rw [alive_takeItems] at hbefore
    rw [owner_takeItems] at hsame
    rw [items_takeItems_of_ne hne] at hkept
    exact ⟨hbefore, howner.trans hsame, hitems.trans hkept⟩
  | further x rest h hlast ih =>
    rw [release_of_lastHandle?_eq_none hlast] at hc ⊢
    obtain ⟨halive, howner, hitems⟩ := ih hc
    obtain ⟨hbefore, hsame, hkept⟩ := eq_of_alive_dropItem halive
    exact ⟨hbefore, howner.trans hsame, hitems.trans hkept⟩

theorem eq_of_takeAll {found : List ContainerId} (hfound : ∀ d ∈ found, h.alive d = true)
    (taken : List Item) : (takeAll found taken h).2.alive c = h.alive c
      ∧ (takeAll found taken h).2.owner c = h.owner c
      ∧ (takeAll found taken h).2.items c = if c ∈ found then #[] else h.items c := by
  induction found generalizing h taken with
  | nil => exact ⟨rfl, rfl, rfl⟩
  | cons d found ih =>
    have hd : h.alive d = true := hfound d List.mem_cons_self
    obtain ⟨halive, howner, hitems⟩ := ih (h := (h.takeItems d).2) (fun e he => by
      rw [alive_takeItems]
      exact hfound e (List.mem_cons_of_mem d he)) ((h.takeItems d).1.toList ++ taken)
    refine ⟨halive.trans (alive_takeItems d c), howner.trans (owner_takeItems d), hitems.trans ?_⟩
    by_cases hc : c ∈ found
    · rw [if_pos hc, if_pos (List.mem_cons_of_mem d hc)]
    · rw [if_neg hc]
      by_cases hcd : c = d
      · subst hcd
        rw [if_pos List.mem_cons_self, items_takeItems hd]
      · rw [if_neg (by simp [hcd, hc]), items_takeItems_of_ne hcd]

/-- **What a discard leaves.** A container that exists after a discard existed before; it is empty if it
was registered, and else holds what it held. -/
theorem items_discard (hc : (h.discard t).2.alive c = true) :
    h.alive c = true ∧ (h.discard t).2.owner c = h.owner c
      ∧ (h.discard t).2.items c = if c ∈ h.registered t then #[] else h.items c := by
  obtain ⟨halive, howner, hitems⟩ := eq_of_alive_release hc
  have hfound : ∀ d ∈ h.registered t, (h.forget t).alive d = true :=
    fun d hd => (alive_adjust t _ d).trans (alive_of_mem_registered hd)
  obtain ⟨hbefore, hsame, hkept⟩ := eq_of_takeAll (c := c) hfound []
  exact ⟨hbefore.symm.trans halive, howner.trans hsame, hitems.trans hkept⟩

/-! ## Accounts after a release -/

/-- What of an account does not depend on its count stays when a handle is given up. -/
theorem map_tracker?_dropItem {β : Type} {f : Tracker → β} (hf : ∀ a, f a.unregister = f a)
    (x : Item) (t : TrackerId) :
    ((h.dropItem x).tracker? t).map f = (h.tracker? t).map f := by
  unfold dropItem dropHandle
  split
  · split
    · split
      · rw [tracker?_alter, tracker?_adjust]
        split
        · rename_i howner
          rw [howner, Option.map_map]
          exact congrArg (Option.map · _) (funext hf)
        · rfl
      · rfl
    · rfl
  · rfl

theorem map_tracker?_release {β : Type} {f : Tracker → β} (hf : ∀ a, f a.unregister = f a)
    (xs : List Item) (t : TrackerId) :
    ((h.release xs).tracker? t).map f = (h.tracker? t).map f := by
  induction xs, h using release_induction with
  | nil h => rw [release_nil]
  | last x rest c h hlast ih =>
    rw [release_of_lastHandle?_eq_some hlast, ih, map_tracker?_dropItem hf]
    rfl
  | further x rest h hlast ih =>
    rw [release_of_lastHandle?_eq_none hlast, ih, map_tracker?_dropItem hf]

/-! ## What is registered -/

/-- Whether the registry of a tracker lists a container. -/
def Lists (h : Heap) (t : TrackerId) (c : ContainerId) : Prop :=
  ∃ account, h.tracker? t = some account ∧ c ∈ account.registry

/-- The containers that a registry lists are its entries. -/
theorem mem_entries_iff {c : ContainerId} : c ∈ h.entries t ↔ h.Lists t c := by
  unfold entries Lists
  cases h.tracker? t with
  | none => simp
  | some account => simp

theorem mem_registered_iff : c ∈ h.registered t ↔ h.alive c = true ∧ h.Lists t c := by
  rw [registered_eq, List.mem_filter, mem_entries_iff, and_comm]

/-- The registry of a tracker lists, of the containers that exist, exactly its own from a number on, and
nothing that has not been created. -/
structure RegisteredFrom (h : Heap) (t : TrackerId) (mark : ContainerId) : Prop where
  lists_iff : ∀ c, h.alive c = true → (h.Lists t c ↔ h.owner c = t ∧ mark ≤ c)
  lt_created : ∀ c, h.Lists t c → c < h.created

theorem RegisteredFrom.mem_registered {mark : ContainerId} (hr : h.RegisteredFrom t mark) :
    c ∈ h.registered t ↔ h.alive c = true ∧ h.owner c = t ∧ mark ≤ c := by
  rw [mem_registered_iff, and_congr_right_iff]
  exact hr.lists_iff c

theorem lists_congr (heq : h'.entries t = h.entries t) (c : ContainerId) :
    h'.Lists t c ↔ h.Lists t c := by
  rw [← mem_entries_iff, ← mem_entries_iff, heq]

theorem entries_dropItem (x : Item) (t : TrackerId) : (h.dropItem x).entries t = h.entries t :=
  entries_congr (map_tracker?_dropItem (fun _ => rfl) x t)

theorem entries_release (xs : List Item) (t : TrackerId) : (h.release xs).entries t = h.entries t :=
  entries_congr (map_tracker?_release (fun _ => rfl) xs t)

/-- To empty containers concerns no tracker. -/
theorem tracker?_takeAll (found : List ContainerId) (taken : List Item) (t : TrackerId) :
    (takeAll found taken h).2.tracker? t = h.tracker? t := by
  induction found generalizing h taken with
  | nil => rfl
  | cons c found ih => exact ih _

/-- After a discard nothing is registered. -/
theorem registeredFrom_discard (h : Heap) (t : TrackerId) :
    (h.discard t).2.RegisteredFrom t h.created := by
  have hempty : (h.discard t).2.entries t = [] := by
    have hforgotten : (h.forget t).entries t = [] := (entries_forget t).trans (if_pos rfl)
    have htaken : (takeAll (h.registered t) [] (h.forget t)).2.entries t = (h.forget t).entries t :=
      entries_congr (congrArg _ (tracker?_takeAll _ _ t))
    exact ((entries_release _ t).trans htaken).trans hforgotten
  have hnone : ∀ c, ¬ (h.discard t).2.Lists t c := by
    intro c hc
    rw [← mem_entries_iff, hempty] at hc
    cases hc
  refine ⟨fun c hc => ⟨fun hl => absurd hl (hnone c), fun hfrom => ?_⟩,
    fun c hc => absurd hc (hnone c)⟩
  exact absurd (lt_created_of_alive (items_discard hc).1) (Nat.not_lt.mpr hfrom.2)

theorem lists_openTracker (limit : Nat) :
    (h.openTracker limit).2.Lists t c ↔ h.Lists t c := by
  rw [← mem_entries_iff, ← mem_entries_iff, entries_openTracker]
  by_cases ht : t = h.trackers.size
  · -- the new tracker lists nothing, and there was no tracker before
    have hnone : h.tracker? t = none := Array.getElem?_eq_none (Nat.le_of_eq ht.symm)
    rw [if_pos ht, entries, hnone]
  · rw [if_neg ht]

/-- The registry of a tracker after a further container of it. -/
theorem lists_enroll {account : Tracker} (ht : h.tracker? t = some account) (xs : Array Item) :
    ((h.enroll t xs).Lists t c → h.Lists t c ∨ c = h.created)
      ∧ (c = h.created ∨ h.alive c = true ∧ h.Lists t c → (h.enroll t xs).Lists t c) := by
  rw [← mem_entries_iff, ← mem_entries_iff, entries_enroll ht, List.mem_append, List.mem_singleton]
  constructor
  · exact fun hc => hc.imp_left fun hkept => (entries_compact_sublist h t).subset hkept
  · rintro (hc | ⟨halive, hc⟩)
    · exact .inr hc
    · exact .inl (mem_entries_compact hc halive)

theorem RegisteredFrom.enroll {mark : ContainerId} (hr : h.RegisteredFrom t mark)
    (hmark : mark ≤ h.created) {u : TrackerId} {account : Tracker} (hu : h.tracker? u = some account)
    (xs : Array Item) : (h.enroll u xs).RegisteredFrom t mark := by
  have hnew : ¬ h.Lists t h.created := fun hl => Nat.lt_irrefl _ (hr.lt_created _ hl)
  by_cases hut : u = t
  · subst hut
    constructor
    · intro c hc
      rw [alive_enroll, Bool.or_eq_true, decide_eq_true_iff] at hc
      rw [owner_enroll]
      by_cases hcreated : c = h.created
      · rw [if_pos hcreated]
        have hlists := (lists_enroll (c := c) hu xs).2 (.inl hcreated)
        exact ⟨fun _ => ⟨rfl, hcreated ▸ hmark⟩, fun _ => hlists⟩
      · rw [if_neg hcreated, ← hr.lists_iff c (hc.resolve_left hcreated)]
        refine ⟨fun hl => ((lists_enroll hu xs).1 hl).resolve_right hcreated, fun hl => ?_⟩
        exact (lists_enroll hu xs).2 (.inr ⟨hc.resolve_left hcreated, hl⟩)
    · intro c hc
      rw [created_enroll]
      rcases (lists_enroll hu xs).1 hc with hc | hc
      · exact (hr.lt_created c hc).trans (Nat.lt_succ_self _)
      · exact hc ▸ Nat.lt_succ_self _
  · -- the registry is as it was, and the new container belongs to another tracker
    have hlists : ∀ c, (h.enroll u xs).Lists t c ↔ h.Lists t c :=
      lists_congr (entries_enroll_of_ne hut xs)
    constructor
    · intro c hc
      rw [alive_enroll, Bool.or_eq_true, decide_eq_true_iff] at hc
      rw [hlists, owner_enroll]
      by_cases hcreated : c = h.created
      · rw [if_pos hcreated, hcreated]
        exact ⟨fun hl => absurd hl hnew, fun hl => absurd hl.1 hut⟩
      · rw [if_neg hcreated]
        exact hr.lists_iff c (hc.resolve_left hcreated)
    · intro c hc
      rw [created_enroll]
      exact (hr.lt_created c ((hlists c).mp hc)).trans (Nat.lt_succ_self _)

/-- A step that makes no container and registers none keeps what is registered. -/
theorem Step.registeredFrom_of_lists {may : Effect → Prop} {a b : Moment} (hs : Step may a b)
    {mark : ContainerId} (hr : a.heap.RegisteredFrom t mark)
    (hcreated : b.heap.created = a.heap.created)
    (hlists : ∀ c, b.heap.Lists t c ↔ a.heap.Lists t c) : b.heap.RegisteredFrom t mark where
  lists_iff c hc := by
    obtain ⟨hbefore, howner⟩ := hs.lasting (hcreated ▸ lt_created_of_alive hc) hc
    rw [hlists, ← howner]
    exact hr.lists_iff c hbefore
  lt_created c hc := hcreated ▸ hr.lt_created c ((hlists c).mp hc)

/-- **The registry along a step.** Unless the tracker is discarded its registry goes on listing the
containers from a number on, and those that are made. -/
theorem Step.registeredFrom {may : Effect → Prop} {a b : Moment} (hs : Step may a b)
    (hmay : ¬ may (.discard t)) {mark : ContainerId} (hmark : mark ≤ a.heap.created)
    (hr : a.heap.RegisteredFrom t mark) : b.heap.RegisteredFrom t mark := by
  have hkeeps := hs.registeredFrom_of_lists hr
  cases hs with
  | perm | leaf | allocate => exact ⟨hr.lists_iff, hr.lt_created⟩
  | openTracker limit => exact hkeeps rfl fun _ => lists_openTracker limit
  | share =>
    refine hkeeps (created_share _ _) (lists_congr (entries_congr ?_))
    rw [tracker?_share]
  | drop => exact hkeeps (created_dropItem _) (lists_congr (entries_dropItem _ t))
  | enroll _ ht => exact hr.enroll hmark ht _
  | exchange => exact hkeeps (created_alter _ _) fun _ => Iff.rfl
  | @forget h held u hdiscard =>
    have hut : u ≠ t := by
      rintro rfl
      exact hmay hdiscard
    exact hkeeps rfl (lists_congr ((entries_forget u).trans (if_neg hut)))

theorem Steps.registeredFrom {may : Effect → Prop} {start b : Moment} {past : List Moment}
    (hr : Steps may start past b) (hmay : ¬ may (.discard t)) {mark : ContainerId}
    (hmark : mark ≤ start.heap.created) (hstart : start.heap.RegisteredFrom t mark) :
    b.heap.RegisteredFrom t mark := by
  induction hr with
  | refl => exact hstart
  | next hr hs ih => exact hs.registeredFrom hmay (hmark.trans hr.created_le) ih

/-! ## What becomes of containers that take over nothing -/

/-- Every container that is left existed before, with the same owner, and holds nothing new. -/
def Shrinks (h h' : Heap) : Prop :=
  ∀ c, h'.alive c = true → h.alive c = true ∧ h'.owner c = h.owner c ∧ ∀ x ∈ h'.items c, x ∈ h.items c

theorem Shrinks.trans {h'' : Heap} (hfirst : h.Shrinks h') (hsecond : h'.Shrinks h'') :
    h.Shrinks h'' := by
  intro c hc
  obtain ⟨hbetween, howner, hitems⟩ := hsecond c hc
  obtain ⟨hbefore, heq, hsub⟩ := hfirst c hbetween
  exact ⟨hbefore, howner.trans heq, fun x hx => hsub x (hitems x hx)⟩

theorem Step.shrinks {may : Effect → Prop} {a b : Moment} (hs : Step may a b)
    (hmay : ¬ may .store) : a.heap.Shrinks b.heap := by
  intro c hc
  cases hs with
  | perm | leaf | allocate | openTracker | forget => exact ⟨hc, rfl, fun _ hx => hx⟩
  | share =>
    rw [alive_share] at hc
    refine ⟨hc, owner_share _ _ c, fun x hx => ?_⟩
    rwa [items_share] at hx
  | drop =>
    obtain ⟨hbefore, howner, hitems⟩ := eq_of_alive_dropItem hc
    exact ⟨hbefore, howner, fun x hx => hitems ▸ hx⟩
  | enroll hstore => exact absurd hstore hmay
  | @exchange h _ _ d ys hstore hd =>
    rw [alive_alter_some] at hc
    refine ⟨hc, owner_alter_some (fun k => { k with items := ys }) (fun _ => rfl) d c, fun x hx => ?_⟩
    rw [items_eq_getD, container?_alter_some] at hx
    by_cases hdc : d = c
    · subst hdc
      obtain ⟨k, hk⟩ := alive_iff.1 hd
      rw [if_pos rfl, hk] at hx
      exact hstore.resolve_left hmay x hx
    · rwa [if_neg hdc, ← items_eq_getD] at hx

theorem Steps.shrinks {may : Effect → Prop} {start b : Moment} {past : List Moment}
    (hr : Steps may start past b) (hmay : ¬ may .store) : start.heap.Shrinks b.heap := by
  induction hr with
  | refl => exact fun _ hc => ⟨hc, rfl, fun _ hx => hx⟩
  | next _ hs ih => exact ih.trans (hs.shrinks hmay)

/-! ## Circles -/

/-- Whether a container of a set holds a handle to another one. -/
def Holds (h : Heap) (S : ContainerId → Prop) (c d : ContainerId) : Prop :=
  S c ∧ ∃ x ∈ h.items c, x.container? = some d

/-- Whether containers of a set hold one another in a circle. -/
def HasCycle (h : Heap) (S : ContainerId → Prop) : Prop :=
  ∃ c, Relation.TransGen (h.Holds S) c c

/-- Circles are found again in a heap whose containers hold what they hold in the other. -/
theorem HasCycle.mono {S S' : ContainerId → Prop} (hcycle : h'.HasCycle S')
    (hsub : ∀ c, S' c → ∀ x ∈ h'.items c, S c ∧ x ∈ h.items c) : h.HasCycle S := by
  obtain ⟨c, hc⟩ := hcycle
  have hholds : ∀ d e, h'.Holds S' d e → h.Holds S d e := by
    rintro d e ⟨hd, x, hx, he⟩
    obtain ⟨hS, hmem⟩ := hsub d hd x hx
    exact ⟨hS, x, hmem, he⟩
  exact ⟨c, Relation.TransGen.mono hholds c c hc⟩

/-- Without a circle there is no going up from holder to holder for ever. -/
theorem wellFounded_of_not_hasCycle {S : ContainerId → Prop} (hcycle : ¬ h.HasCycle S) :
    WellFounded fun c d : Fin h.created => Relation.TransGen (h.Holds S) c d := by
  have htrans : IsTrans (Fin h.created) fun c d => Relation.TransGen (h.Holds S) c d :=
    ⟨fun _ _ _ => Relation.TransGen.trans⟩
  have hirrefl : Std.Irrefl fun c d : Fin h.created => Relation.TransGen (h.Holds S) c d :=
    ⟨fun c hc => hcycle ⟨c, hc⟩⟩
  exact Finite.wellFounded_of_trans_of_irrefl _

/-- Whether no handle to a container of the tracker is held outside or kept in a container of another
tracker. -/
structure Unheld (t : TrackerId) (now : Moment) : Prop where
  outside : ∀ x ∈ now.held, ∀ c, x.container? = some c → now.heap.owner c ≠ t
  elsewhere : ∀ d, now.heap.owner d ≠ t → ∀ x ∈ now.heap.items d, ∀ c, x.container? = some c →
    now.heap.owner c ≠ t

/-- Without slots it is enough that no other tracker has containers. -/
theorem unheld_of_owner_eq {now : Moment} (hheld : now.held = [])
    (howner : ∀ d < now.heap.created, now.heap.alive d = true → now.heap.owner d = t) :
    Unheld t now where
  outside x hx := by
    rw [hheld] at hx
    cases hx
  elsewhere d hd x hx := by
    have halive := alive_of_mem_items hx
    exact absurd (howner d (lt_created_of_alive halive) halive) hd

/-- **Nothing is left.** When no handle from outside is left, the containers of a tracker have all ended
unless they hold one another in a circle. -/
theorem population_eq_zero_of_unheld {now : Moment} (ha : now.heap.Accounted now.held)
    (hunheld : Unheld t now) (hcycle : ¬ now.heap.HasCycle fun c => now.heap.owner c = t) :
    now.heap.population t = 0 := by
  have hnone : ∀ c : Fin now.heap.created, now.heap.alive c = true → now.heap.owner c ≠ t := by
    intro c
    -- a container of the tracker exists because another one holds it
    induction c using (wellFounded_of_not_hasCycle hcycle).induction with
    | _ c ih =>
      intro hc howner
      rcases ha.alive_iff_handle.1 hc with ⟨x, hx, hxc⟩ | ⟨d, hd, x, hx, hxc⟩
      · exact hunheld.outside x hx c hxc howner
      · by_cases hdt : now.heap.owner d = t
        · exact ih ⟨d, lt_created_of_alive hd⟩ (.single ⟨hdt, x, hx, hxc⟩) hd hdt
        · exact hunheld.elsewhere d hdt x hx c hxc howner
  exact population_eq_zero_iff.2 fun c hc => hnone ⟨c, lt_created_of_alive hc⟩ hc

end Heap

end BoundedVm
