import BoundedVm.Proofs.Heap.WellFormed

/-! # The count of handles

A handle to a container is held outside the heap or kept in a container. `Heap.Accounted` says of a heap
and the handles held outside that every container counts its handles right and that one without handles
does not exist. Whatever makes, moves or gives up one handle keeps it, with the handles that it takes
over and hands over. -/

namespace BoundedVm

/-- The number of handles to a container among some items. -/
def handlesTo (c : ContainerId) (xs : List Item) : Nat :=
  xs.countP fun x => x.container? = some c

@[simp] theorem handlesTo_nil (c : ContainerId) : handlesTo c [] = 0 := rfl

@[simp] theorem handlesTo_append (c : ContainerId) (xs ys : List Item) :
    handlesTo c (xs ++ ys) = handlesTo c xs + handlesTo c ys :=
  List.countP_append

theorem handlesTo_cons_of_eq {c : ContainerId} {x : Item} (hx : x.container? = some c)
    (xs : List Item) : handlesTo c (x :: xs) = handlesTo c xs + 1 := by
  simp [handlesTo, hx]

theorem handlesTo_cons_of_ne {c : ContainerId} {x : Item} (hx : x.container? ≠ some c)
    (xs : List Item) : handlesTo c (x :: xs) = handlesTo c xs := by
  simp [handlesTo, hx]

theorem handlesTo_perm {xs ys : List Item} (hp : xs.Perm ys) (c : ContainerId) :
    handlesTo c xs = handlesTo c ys :=
  hp.countP_eq _

theorem handlesTo_pos {c : ContainerId} {x : Item} {xs : List Item} (hx : x ∈ xs)
    (hc : x.container? = some c) : 0 < handlesTo c xs :=
  List.countP_pos_iff.mpr ⟨x, hx, by simpa using hc⟩

namespace Heap

/-- The number of handles to a container that a place keeps. -/
def keptAt (c : ContainerId) : Option Container → Nat
  | some k => handlesTo c k.items.toList
  | none => 0

/-- The number of handles to a container that are kept in containers. -/
def kept (h : Heap) (c : ContainerId) : Nat :=
  h.total (keptAt c)

variable {h : Heap}

theorem keptAt_container? (c d : ContainerId) :
    keptAt c (h.container? d) = handlesTo c (h.items d).toList := by
  unfold items
  cases h.container? d <;> rfl

theorem items_of_container? {c : ContainerId} {k : Container} (hk : h.container? c = some k) :
    h.items c = k.items := by
  rw [items, hk]

theorem handles_of_container? {c : ContainerId} {k : Container} (hk : h.container? c = some k) :
    h.handles c = k.handles := by
  rw [handles_eq_getD, hk]
  rfl

theorem handles_of_not_alive {c : ContainerId} (hc : h.alive c = false) : h.handles c = 0 := by
  rw [alive_eq_isSome, Option.isSome_eq_false_iff, Option.isNone_iff_eq_none] at hc
  rw [handles_eq_getD, hc]
  rfl

theorem sumOf_eq_zero_iff {α : Type} {weight : α → Nat} {l : List α} :
    sumOf weight l = 0 ↔ ∀ a ∈ l, weight a = 0 := by
  induction l with
  | nil => simp
  | cons a l ih => rw [sumOf_cons, Nat.add_eq_zero_iff, List.forall_mem_cons, ih]

/-- All places together weigh nothing if none of them weighs anything. -/
theorem total_eq_zero_iff {weight : Option Container → Nat} (hnone : weight none = 0) :
    h.total weight = 0 ↔ ∀ c, weight (h.container? c) = 0 := by
  rw [total, sumOf_eq_zero_iff]
  constructor
  · intro hall c
    cases hk : h.container? c with
    | none => exact hnone
    | some k =>
      have hplace : h.containers[c]? = some (some k) := Option.join_eq_some_iff.mp hk
      have hmem : some k ∈ h.containers.toList :=
        Array.mem_toList_iff.mpr (Array.mem_of_getElem? hplace)
      exact hall _ hmem
  · intro hall place hplace
    obtain ⟨c, hc⟩ := Array.getElem?_of_mem (Array.mem_toList_iff.mp hplace)
    have hplaced : h.container? c = place := by rw [container?, hc, Option.join_some]
    rw [← hplaced]
    exact hall c

/-- What one container keeps is not more than what all keep. -/
theorem handlesTo_items_le_kept (c d : ContainerId) :
    handlesTo c (h.items d).toList ≤ h.kept c := by
  -- taking the container away takes away what it keeps
  have hd := h.total_alter (keptAt c) d fun _ => none
  have hnone : (h.container? d).bind (fun _ => (none : Option Container)) = none := by
    cases h.container? d <;> rfl
  rw [keptAt_container?, hnone] at hd
  show _ ≤ h.total (keptAt c)
  have hzero : keptAt c none = 0 := rfl
  omega

/-! ## The count after a change -/

theorem kept_alter_some {c : ContainerId} {k : Container} (hk : h.container? c = some k)
    (f : Container → Container) (d : ContainerId) :
    (h.alter c fun k => some (f k)).kept d + handlesTo d k.items.toList
      = h.kept d + handlesTo d (f k).items.toList := by
  have hd := h.total_alter (keptAt d) c fun k => some (f k)
  rw [hk] at hd
  exact hd

theorem kept_alter_none {c : ContainerId} {k : Container} (hk : h.container? c = some k)
    (d : ContainerId) :
    (h.alter c fun _ => none).kept d + handlesTo d k.items.toList = h.kept d := by
  have hd := h.total_alter (keptAt d) c fun _ => none
  rw [hk] at hd
  exact hd

theorem handles_alter_some {c : ContainerId} {k : Container} (hk : h.container? c = some k)
    (f : Container → Container) (d : ContainerId) :
    (h.alter c fun k => some (f k)).handles d
      = if d = c then (f k).handles else h.handles d := by
  rw [handles_eq_getD, container?_alter_some, handles_eq_getD]
  by_cases hd : d = c
  · subst hd
    rw [if_pos rfl, if_pos rfl, hk]
    rfl
  · rw [if_neg (Ne.symm hd), if_neg hd]

theorem handles_alter_none (c d : ContainerId) :
    (h.alter c fun _ => none).handles d = if d = c then 0 else h.handles d := by
  rw [handles_eq_getD, container?_alter, handles_eq_getD]
  by_cases hd : d = c
  · subst hd
    rw [if_pos rfl, if_pos rfl]
    cases h.container? d <;> rfl
  · rw [if_neg (Ne.symm hd), if_neg hd]

theorem alive_alter_none (c d : ContainerId) :
    (h.alter c fun _ => none).alive d = (decide (d ≠ c) && h.alive d) := by
  rw [alive_eq_isSome, container?_alter, alive_eq_isSome]
  by_cases hd : d = c
  · subst hd
    cases h.container? d <;> simp
  · rw [if_neg (Ne.symm hd)]
    simp [hd]

theorem owner_alter_none {c d : ContainerId} (hd : d ≠ c) :
    (h.alter c fun _ => none).owner d = h.owner d := by
  rw [owner_eq_getD, container?_alter, if_neg (Ne.symm hd), owner_eq_getD]

theorem items_alter_none {c d : ContainerId} (hd : d ≠ c) :
    (h.alter c fun _ => none).items d = h.items d := by
  rw [items_eq_getD, container?_alter, if_neg (Ne.symm hd), items_eq_getD]

/-- What exists after a handle has been given up is as it was, but for its handles. -/
theorem eq_of_alive_dropItem {x : Item} {c : ContainerId} (hc : (h.dropItem x).alive c = true) :
    h.alive c = true ∧ (h.dropItem x).owner c = h.owner c
      ∧ (h.dropItem x).items c = h.items c := by
  revert hc
  unfold dropItem
  split
  · split
    · unfold dropHandle
      split
      · intro hc
        rw [alive_alter_none, Bool.and_eq_true, decide_eq_true_iff] at hc
        rw [owner_alter_none hc.1, items_alter_none hc.1]
        exact ⟨hc.2, rfl, rfl⟩
      · intro hc
        rw [alive_alter_some] at hc
        rw [owner_alter_some (fun k => { k with handles := k.handles - 1 }) fun _ => rfl,
          items_alter_some (fun k => { k with handles := k.handles - 1 }) fun _ => rfl]
        exact ⟨hc, rfl, rfl⟩
    · exact fun hc => ⟨hc, rfl, rfl⟩
  · exact fun hc => ⟨hc, rfl, rfl⟩

theorem alive_takeItems (c d : ContainerId) : (h.takeItems c).2.alive d = h.alive d := by
  rw [takeItems, alive_alter_some]

theorem handles_enroll (t : TrackerId) (xs : Array Item) (c : ContainerId) :
    (h.enroll t xs).handles c = if c = h.created then 1 else h.handles c := by
  rw [handles_eq_getD, container?_enroll, handles_eq_getD]
  by_cases hc : c = h.created
  · rw [if_pos hc, if_pos hc]
    rfl
  · rw [if_neg hc, if_neg hc]

theorem kept_enroll (t : TrackerId) (xs : Array Item) (c : ContainerId) :
    (h.enroll t xs).kept c = h.kept c + handlesTo c xs.toList := by
  simp [kept, total, enroll, adjust, keptAt]

@[simp] theorem size_trackers_enroll (t : TrackerId) (xs : Array Item) :
    (h.enroll t xs).trackers.size = h.trackers.size := by
  have hcompact : (h.compact t).trackers.size = h.trackers.size := by
    unfold compact
    split
    · split
      · simp [adjust]
      · rfl
    · rfl
  simpa [enroll, adjust] using hcompact

@[simp] theorem kept_adjust (t : TrackerId) (f : Tracker → Tracker) (c : ContainerId) :
    (h.adjust t f).kept c = h.kept c := rfl

@[simp] theorem handles_adjust (t : TrackerId) (f : Tracker → Tracker) (c : ContainerId) :
    (h.adjust t f).handles c = h.handles c := rfl

/-- A container that has been emptied holds nothing. -/
theorem items_takeItems {c : ContainerId} (hc : h.alive c = true) :
    (h.takeItems c).2.items c = #[] := by
  obtain ⟨k, hk⟩ := alive_iff.1 hc
  rw [takeItems, items_eq_getD, container?_alter_some, if_pos rfl, hk]
  rfl

/-! ## Accounted heaps -/

/-- Every container counts its handles, those that are `held` outside and those kept in containers,
every container that exists has some, and every owner is a tracker that was opened. -/
structure Accounted (h : Heap) (held : List Item) : Prop where
  handles_eq : ∀ c, h.handles c = handlesTo c held + h.kept c
  handles_pos : ∀ {c}, h.alive c = true → 0 < h.handles c
  owner_lt : ∀ {c}, h.alive c = true → h.owner c < h.trackers.size

namespace Accounted

variable {held : List Item} {c : ContainerId} {x : Item}

theorem alive_of_handles_pos (hc : 0 < h.handles c) : h.alive c = true := by
  cases ha : h.alive c with
  | true => rfl
  | false =>
    rw [handles_of_not_alive ha] at hc
    exact absurd hc (Nat.lt_irrefl 0)

/-- A container with a handle outside exists. -/
theorem alive_of_mem (ha : h.Accounted held) (hx : x ∈ held) (hc : x.container? = some c) :
    h.alive c = true := by
  apply alive_of_handles_pos
  rw [ha.handles_eq]
  exact Nat.lt_add_right _ (handlesTo_pos hx hc)

/-- A container with a handle in a container exists. -/
theorem alive_of_mem_items (ha : h.Accounted held) {d : ContainerId} (hx : x ∈ h.items d)
    (hc : x.container? = some c) : h.alive c = true := by
  apply alive_of_handles_pos
  have hkept := h.handlesTo_items_le_kept c d
  have hpos := handlesTo_pos (Array.mem_toList_iff.mpr hx) hc
  rw [ha.handles_eq]
  omega

/-- A container exists as long as there is a handle to it, outside or in a container that exists. -/
theorem alive_iff_handle (ha : h.Accounted held) : h.alive c = true ↔
    (∃ x ∈ held, x.container? = some c)
      ∨ ∃ d, h.alive d = true ∧ ∃ x ∈ h.items d, x.container? = some c := by
  constructor
  · intro hc
    have hpos := ha.handles_pos hc
    rw [ha.handles_eq] at hpos
    by_cases hheld : 0 < handlesTo c held
    · obtain ⟨x, hx, hxc⟩ := List.countP_pos_iff.mp hheld
      exact .inl ⟨x, hx, by simpa using hxc⟩
    · -- it is kept then, and somewhere
      have hkept : h.kept c ≠ 0 := by omega
      rw [kept, Ne, total_eq_zero_iff rfl, not_forall] at hkept
      obtain ⟨d, hd⟩ := hkept
      rw [keptAt_container?] at hd
      obtain ⟨x, hx, hxc⟩ := List.countP_pos_iff.mp (Nat.pos_of_ne_zero hd)
      have hmem : x ∈ h.items d := Array.mem_toList_iff.mp hx
      exact .inr ⟨d, Heap.alive_of_mem_items hmem, x, hmem, by simpa using hxc⟩
  · rintro (⟨x, hx, hc⟩ | ⟨d, -, x, hx, hc⟩)
    · exact ha.alive_of_mem hx hc
    · exact ha.alive_of_mem_items hx hc

theorem wellFormed (ha : h.Accounted held) : h.WellFormed where
  lt_created hx hc := lt_created_of_alive (ha.alive_of_mem_items hx hc)
  owner_lt := ha.owner_lt

/-- A change that keeps the owner of a container keeps all owners among the trackers. -/
theorem owner_lt_alter_some (ha : h.Accounted held) (f : Container → Container)
    (hf : ∀ k, (f k).owner = k.owner) {d : ContainerId}
    (hd : (h.alter c fun k => some (f k)).alive d = true) :
    (h.alter c fun k => some (f k)).owner d < (h.alter c fun k => some (f k)).trackers.size := by
  rw [alive_alter_some] at hd
  rw [owner_alter_some f hf]
  exact ha.owner_lt hd

/-- The order in which the handles are held does not matter. -/
theorem perm (ha : h.Accounted held) {held' : List Item} (hp : held.Perm held') :
    h.Accounted held' where
  handles_eq c := by rw [← handlesTo_perm hp, ha.handles_eq]
  handles_pos := ha.handles_pos
  owner_lt := ha.owner_lt

/-- What is no handle to a container may be held or not. -/
theorem cons_iff_of_leaf (hx : x.container? = none) :
    h.Accounted (x :: held) ↔ h.Accounted held := by
  have hto : ∀ c, handlesTo c (x :: held) = handlesTo c held := by
    intro c
    exact handlesTo_cons_of_ne (by simp [hx]) held
  constructor
  · intro ha
    exact ⟨fun c => by rw [ha.handles_eq, hto], ha.handles_pos, ha.owner_lt⟩
  · intro ha
    exact ⟨fun c => by rw [ha.handles_eq, hto], ha.handles_pos, ha.owner_lt⟩

/-! ## Handles made, moved and given up -/

/-- Further handles to what exists are held outside. -/
theorem share (ha : h.Accounted held) (hc : ∀ c, x.container? = some c → h.alive c = true)
    (n : Nat) : (h.share n x).Accounted (List.replicate n x ++ held) := by
  cases hx : x.container? with
  | none =>
    rw [share_of_leaf hx]
    -- handles to a leaf are handles to no container
    refine ⟨fun c => ?_, ha.handles_pos, ha.owner_lt⟩
    have hzero : handlesTo c (List.replicate n x) = 0 := by
      simp [handlesTo, List.countP_replicate, hx]
    rw [handlesTo_append, hzero, Nat.zero_add]
    exact ha.handles_eq c
  | some c =>
    obtain ⟨k, hk⟩ := alive_iff.1 (hc c hx)
    have hto : ∀ d, handlesTo d (List.replicate n x) = if d = c then n else 0 := by
      intro d
      simp [handlesTo, List.countP_replicate, hx, eq_comm]
    rw [share_of_container? hx]
    refine ⟨fun d => ?_, fun {d} hd => ?_,
      ha.owner_lt_alter_some (fun k => { k with handles := k.handles + n }) fun _ => rfl⟩
    · have hkept := kept_alter_some hk (fun k => { k with handles := k.handles + n }) d
      have hhandles := ha.handles_eq d
      rw [handles_alter_some hk, handlesTo_append, hto]
      by_cases hd : d = c
      · subst hd
        rw [handles_of_container? hk] at hhandles
        simp only [if_true] at hkept ⊢
        omega
      · simp only [if_neg hd] at hkept ⊢
        omega
    · rw [alive_alter_some] at hd
      have hpos := ha.handles_pos hd
      rw [handles_alter_some hk]
      by_cases hdc : d = c
      · subst hdc
        rw [handles_of_container? hk] at hpos
        rw [if_pos rfl]
        exact Nat.lt_add_right n hpos
      · rw [if_neg hdc]
        exact hpos

/-- Handles move between a container and the outside. -/
theorem exchange (ha : h.Accounted held) (hc : h.alive c = true) {ys : Array Item}
    {held' : List Item} (hp : ((h.items c).toList ++ held).Perm (ys.toList ++ held')) :
    (h.alter c fun k => some { k with items := ys }).Accounted held' := by
  obtain ⟨k, hk⟩ := alive_iff.1 hc
  -- the counts stay, and what is kept and what is held change by the same handles
  have hhandles : ∀ d, (h.alter c fun k => some { k with items := ys }).handles d = h.handles d := by
    intro d
    rw [handles_alter_some hk]
    by_cases hd : d = c
    · subst hd
      rw [if_pos rfl, handles_of_container? hk]
    · rw [if_neg hd]
  refine ⟨fun d => ?_, fun {d} hd => ?_,
    ha.owner_lt_alter_some (fun k => { k with items := ys }) fun _ => rfl⟩
  · have hkept := kept_alter_some hk (fun k => { k with items := ys }) d
    have hmoved := handlesTo_perm hp d
    rw [items_of_container? hk, handlesTo_append, handlesTo_append] at hmoved
    have hbefore := ha.handles_eq d
    rw [hhandles]
    dsimp only at hkept
    omega
  · rw [alive_alter_some] at hd
    rw [hhandles]
    exact ha.handles_pos hd

/-- The last handle is given up, after the container has been emptied. -/
theorem dropLast (ha : h.Accounted (x :: held)) (hx : x.container? = some c)
    (hone : h.handles c = 1) (hempty : h.items c = #[]) :
    ((h.adjust (h.owner c) Tracker.unregister).alter c fun _ => none).Accounted held := by
  have hc : h.alive c = true := ha.alive_of_mem List.mem_cons_self hx
  obtain ⟨k, hk⟩ := alive_iff.1 hc
  have hkadjust : (h.adjust (h.owner c) Tracker.unregister).container? c = some k := hk
  refine ⟨fun d => ?_, fun {d} hd => ?_, fun {d} hd => ?_⟩
  · have hkept := kept_alter_none hkadjust d
    have hbefore := ha.handles_eq d
    rw [← items_of_container? hk, hempty, handlesTo_nil, kept_adjust, Nat.add_zero] at hkept
    rw [hkept, handles_alter_none, handles_adjust]
    by_cases hd : d = c
    · -- the one handle was the one that is given up
      subst hd
      rw [handlesTo_cons_of_eq hx] at hbefore
      rw [if_pos rfl]
      omega
    · rw [handlesTo_cons_of_ne (by simpa [hx] using Ne.symm hd)] at hbefore
      rw [if_neg hd]
      exact hbefore
  · rw [alive_alter_none, Bool.and_eq_true, decide_eq_true_iff] at hd
    rw [handles_alter_none, if_neg hd.1]
    exact ha.handles_pos hd.2
  · -- the trackers are as many as before
    rw [alive_alter_none, Bool.and_eq_true, decide_eq_true_iff] at hd
    have howner := ha.owner_lt hd.2
    rw [owner_alter_none hd.1, owner_adjust]
    simpa [alter, adjust] using howner

/-- A handle that is not the last one is given up. -/
theorem dropFurther (ha : h.Accounted (x :: held)) (hx : x.container? = some c)
    (hmore : 1 < h.handles c) :
    (h.alter c fun k => some { k with handles := k.handles - 1 }).Accounted held := by
  have hc : h.alive c = true := ha.alive_of_mem List.mem_cons_self hx
  obtain ⟨k, hk⟩ := alive_iff.1 hc
  rw [handles_of_container? hk] at hmore
  refine ⟨fun d => ?_, fun {d} hd => ?_,
    ha.owner_lt_alter_some (fun k => { k with handles := k.handles - 1 }) fun _ => rfl⟩
  · have hkept := kept_alter_some hk (fun k => { k with handles := k.handles - 1 }) d
    have hbefore := ha.handles_eq d
    rw [handles_alter_some hk]
    by_cases hd : d = c
    · -- one handle less is counted, and one less is held
      subst hd
      rw [handles_of_container? hk, handlesTo_cons_of_eq hx] at hbefore
      rw [if_pos rfl]
      dsimp only at hkept ⊢
      omega
    · rw [handlesTo_cons_of_ne (by simpa [hx] using Ne.symm hd)] at hbefore
      rw [if_neg hd]
      dsimp only at hkept
      omega
  · rw [alive_alter_some] at hd
    rw [handles_alter_some hk]
    by_cases hdc : d = c
    · rw [if_pos hdc]
      exact Nat.sub_pos_of_lt hmore
    · rw [if_neg hdc]
      exact ha.handles_pos hd

/-- One handle is given up; if it is the last one, the container has been emptied before. -/
theorem dropItem (ha : h.Accounted (x :: held))
    (hlast : ∀ c, x.container? = some c → h.handles c = 1 → h.items c = #[]) :
    (h.dropItem x).Accounted held := by
  cases hx : x.container? with
  | none =>
    simp only [Heap.dropItem, hx]
    exact (cons_iff_of_leaf hx).mp ha
  | some c =>
    have hc : h.alive c = true := ha.alive_of_mem List.mem_cons_self hx
    have hpos : 0 < h.handles c := ha.handles_pos hc
    have hdrop : h.dropItem x = h.dropHandle c := by
      simp only [Heap.dropItem, hx, hc, if_true]
    -- no container without a handle exists, so that at most one means exactly one
    rw [hdrop, dropHandle]
    by_cases hone : h.handles c ≤ 1
    · rw [if_pos hone]
      have heq : h.handles c = 1 := Nat.le_antisymm hone hpos
      exact ha.dropLast hx heq (hlast c hx heq)
    · rw [if_neg hone]
      exact ha.dropFurther hx (Nat.lt_of_not_le hone)

theorem lastHandle?_eq_some_iff : h.lastHandle? x = some c
    ↔ x.container? = some c ∧ h.handles c = 1 := by
  rw [lastHandle?, Option.filter_eq_some_iff, decide_eq_true_iff]

/-! ## Containers and trackers that are new -/

/-- A new container takes over handles and has one handle, which is held outside. -/
theorem enroll {xs : Array Item} (ha : h.Accounted (xs.toList ++ held)) {t : TrackerId}
    {account : Tracker} (ht : h.tracker? t = some account) (kind : Compound) :
    (h.enroll t xs).Accounted (kind.item h.created :: held) := by
  have hitem : (kind.item h.created).container? = some h.created := by
    cases kind <;> rfl
  have hdead : h.alive h.created = false := not_alive_of_created_le (Nat.le_refl _)
  refine ⟨fun d => ?_, fun {d} hd => ?_, fun {d} hd => ?_⟩
  · have hbefore := ha.handles_eq d
    rw [handlesTo_append] at hbefore
    rw [kept_enroll, handles_enroll]
    by_cases hd : d = h.created
    · -- nothing has named the new container before
      subst hd
      rw [handles_of_not_alive hdead] at hbefore
      rw [if_pos rfl, handlesTo_cons_of_eq hitem]
      omega
    · rw [if_neg hd, handlesTo_cons_of_ne (by simpa [hitem] using Ne.symm hd)]
      omega
  · rw [handles_enroll]
    by_cases hdc : d = h.created
    · rw [if_pos hdc]
      exact Nat.one_pos
    · rw [if_neg hdc]
      rw [alive_enroll] at hd
      exact ha.handles_pos (by simpa [hdc] using hd)
  · rw [size_trackers_enroll, owner_enroll]
    by_cases hdc : d = h.created
    · rw [if_pos hdc]
      exact (Array.getElem?_eq_some_iff.mp ht).1
    · rw [if_neg hdc]
      rw [alive_enroll] at hd
      exact ha.owner_lt (by simpa [hdc] using hd)

theorem openTracker (ha : h.Accounted held) (limit : Nat) :
    (h.openTracker limit).2.Accounted held where
  handles_eq := ha.handles_eq
  handles_pos := ha.handles_pos
  owner_lt hc := by
    have howner := ha.owner_lt hc
    show h.owner _ < (h.trackers.push _).size
    rw [Array.size_push]
    exact Nat.lt_succ_of_lt howner

theorem allocate (ha : h.Accounted held) : h.allocate.2.Accounted held :=
  ⟨ha.handles_eq, ha.handles_pos, ha.owner_lt⟩

theorem adjust (ha : h.Accounted held) (t : TrackerId) (f : Tracker → Tracker) :
    (h.adjust t f).Accounted held where
  handles_eq := ha.handles_eq
  handles_pos := ha.handles_pos
  owner_lt hc := by
    have howner := ha.owner_lt hc
    show h.owner _ < (h.trackers.modify t f).size
    rw [Array.size_modify]
    exact howner

end Accounted

end Heap

end BoundedVm
