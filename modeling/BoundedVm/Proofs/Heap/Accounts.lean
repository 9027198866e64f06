import BoundedVm.Proofs.Heap.Step
import Mathlib.Order.Bounds.Basic

/-! # The accounts of trackers

The account of a tracker is kept by hand: a creation adds one, the end of a container takes one away,
wherever in an operation it comes about. Here it is compared with the containers that there are. One
lemma, `Step.entry`, says what a step can enter into an account, and the rest follows from its four
cases, for a moment and then for a row of steps.

* `Heap.population`: the number of existing containers of a tracker.
* `Heap.Entry`: what a step can do to an account and to the number of containers.
* `Moment.Balances`: what the accounts show at one moment, given those before.
* `Steps.balances`: they show it at every moment of a history. -/

namespace BoundedVm

namespace Heap

variable {h h' : Heap} {t : TrackerId}

/-! ## The number of containers -/

/-- One for a place that holds a container of the tracker. -/
def ownedAt (t : TrackerId) : Option Container → Nat
  | some k => if k.owner = t then 1 else 0
  | none => 0

/-- The number of existing containers that a tracker owns. -/
def population (h : Heap) (t : TrackerId) : Nat :=
  h.total (ownedAt t)

theorem owner_of_container? {c : ContainerId} {k : Container} (hk : h.container? c = some k) :
    h.owner c = k.owner := by
  rw [owner, hk]

theorem ownedAt_container? {c : ContainerId} (hc : h.alive c = true) :
    ownedAt t (h.container? c) = if h.owner c = t then 1 else 0 := by
  obtain ⟨k, hk⟩ := alive_iff.1 hc
  rw [hk, owner_of_container? hk, ownedAt]

theorem population_eq_zero_iff : h.population t = 0 ↔ ∀ c, h.alive c = true → h.owner c ≠ t := by
  rw [population, total_eq_zero_iff rfl]
  constructor
  · intro hall c hc howner
    have hzero := hall c
    rw [ownedAt_container? hc, if_pos howner] at hzero
    cases hzero
  · intro hall c
    cases hc : h.alive c with
    | false =>
      rw [alive_eq_isSome, Option.isSome_eq_false_iff, Option.isNone_iff_eq_none] at hc
      rw [hc]
      rfl
    | true => rw [ownedAt_container? hc, if_neg (hall c hc)]

theorem population_pos {c : ContainerId} (hc : h.alive c = true) : 0 < h.population (h.owner c) :=
  Nat.pos_of_ne_zero fun hzero => population_eq_zero_iff.1 hzero c hc rfl

/-- A change that keeps the owner of a container keeps the number of containers. -/
theorem population_alter_some (c : ContainerId) (f : Container → Container)
    (hf : ∀ k, (f k).owner = k.owner) :
    (h.alter c fun k => some (f k)).population t = h.population t := by
  have hc := h.total_alter (ownedAt t) c fun k => some (f k)
  cases hk : h.container? c with
  | none =>
    rw [hk] at hc
    exact Nat.add_right_cancel hc
  | some k =>
    rw [hk, Option.bind_some, ownedAt, ownedAt, hf] at hc
    exact Nat.add_right_cancel hc

theorem population_alter_none {c : ContainerId} (hc : h.alive c = true) :
    (h.alter c fun _ => none).population t + (if h.owner c = t then 1 else 0) = h.population t := by
  have hsum := h.total_alter (ownedAt t) c fun _ => none
  rw [ownedAt_container? hc] at hsum
  obtain ⟨k, hk⟩ := alive_iff.1 hc
  rw [hk] at hsum
  exact hsum

theorem population_share (n : Nat) (x : Item) : (h.share n x).population t = h.population t := by
  cases hx : x.container? with
  | none => rw [share_of_leaf hx]
  | some c =>
    rw [share_of_container? hx, population_alter_some]
    intro k
    rfl

theorem population_enroll (u : TrackerId) (xs : Array Item) :
    (h.enroll u xs).population t = h.population t + if u = t then 1 else 0 := by
  simp [population, total, enroll, adjust, ownedAt]

theorem tracker?_enroll_of_ne {u : TrackerId} (hu : u ≠ t) (xs : Array Item) :
    (h.enroll u xs).tracker? t = h.tracker? t := by
  have hcompact : (h.compact u).tracker? t = h.tracker? t := by
    unfold compact
    split
    · split
      · rw [tracker?_adjust, if_neg hu]
      · rfl
    · rfl
  show ((h.compact u).adjust u _).tracker? t = h.tracker? t
  rw [tracker?_adjust, if_neg hu, hcompact]

theorem tracker?_openTracker (limit : Nat) : (h.openTracker limit).2.tracker? t
    = if t = h.trackers.size then some ⟨limit, 0, 0, #[]⟩ else h.tracker? t :=
  Array.getElem?_push

/-! ## What a step enters -/

/-- What a step can do to the account of a tracker and to the number of its containers. -/
inductive Entry (h h' : Heap) (t : TrackerId) : Prop
  /-- At most the registrations change. -/
  | unchanged (registry : Tracker → Array ContainerId)
    (ht : h'.tracker? t = (h.tracker? t).map fun account =>
      { account with registry := registry account })
    (hp : h'.population t = h.population t)
  | opened (limit : Nat) (hnone : h.tracker? t = none)
    (ht : h'.tracker? t = some ⟨limit, 0, 0, #[]⟩) (hp : h'.population t = 0)
  | enrolled {account : Tracker} (registry : Array ContainerId)
    (hbefore : h.tracker? t = some account) (hroom : account.live < account.limit)
    (ht : h'.tracker? t
      = some ⟨account.limit, account.live + 1, max account.peak (account.live + 1), registry⟩)
    (hp : h'.population t = h.population t + 1)
  | ended {account : Tracker} (hbefore : h.tracker? t = some account)
    (ht : h'.tracker? t = some account.unregister) (hp : h'.population t + 1 = h.population t)

theorem Entry.of_eq (ht : h'.tracker? t = h.tracker? t) (hp : h'.population t = h.population t) :
    Entry h h' t := by
  refine .unchanged Tracker.registry ?_ hp
  rw [ht]
  cases h.tracker? t <;> rfl

theorem entry_dropItem {held : List Item} (ha : h.Accounted held) (x : Item) (t : TrackerId) :
    Entry h (h.dropItem x) t := by
  cases hx : x.container? with
  | none =>
    simp only [dropItem, hx]
    exact .of_eq rfl rfl
  | some c =>
    simp only [dropItem, hx]
    by_cases hc : h.alive c = true
    · rw [if_pos hc, dropHandle]
      by_cases hlast : h.handles c ≤ 1
      · -- the container ends, and only its owner is told
        rw [if_pos hlast]
        have hp := population_alter_none (h := h.adjust (h.owner c) Tracker.unregister) (t := t) hc
        by_cases howner : h.owner c = t
        · obtain ⟨account, hbefore⟩ := ha.wellFormed.exists_tracker? hc
          rw [owner_adjust, if_pos howner] at hp
          rw [howner] at hbefore
          refine .ended hbefore ?_ hp
          rw [tracker?_alter, tracker?_adjust, if_pos howner, howner, hbefore]
          rfl
        · rw [owner_adjust, if_neg howner] at hp
          refine .of_eq ?_ hp
          rw [tracker?_alter, tracker?_adjust, if_neg howner]
      · rw [if_neg hlast]
        exact .of_eq rfl (population_alter_some c _ fun _ => rfl)
    · rw [if_neg hc]
      exact .of_eq rfl rfl

/-- **What a step enters.** A step enters one container more where one is made, one container less where
one ends, nothing elsewhere, and it opens accounts that are empty. -/
theorem Step.entry {may : Effect → Prop} {a b : Moment} (hs : Step may a b)
    (ha : a.heap.Accounted a.held) (t : TrackerId) : Entry a.heap b.heap t := by
  cases hs with
  | perm | leaf | allocate => exact .of_eq rfl rfl
  | @openTracker h held limit =>
    by_cases ht : t = h.trackers.size
    · -- nothing is owned by a tracker that was not there
      refine .opened limit ?_ ?_ (population_eq_zero_iff.2 fun c hc howner => ?_)
      · exact Array.getElem?_eq_none (Nat.le_of_eq ht.symm)
      · rw [tracker?_openTracker, if_pos ht]
      · have hlt : h.owner c < h.trackers.size := ha.owner_lt hc
        exact absurd (howner.trans ht) (Nat.ne_of_lt hlt)
    · refine .of_eq ?_ rfl
      rw [tracker?_openTracker, if_neg ht]
  | share hx n => exact .of_eq (tracker?_share _ _ t) (population_share _ _)
  | drop => exact entry_dropItem ha _ t
  | @enroll h held xs u account hmay ht hroom kind =>
    by_cases hu : u = t
    · subst hu
      obtain ⟨registry, hregistered⟩ := exists_tracker?_enroll ht xs
      refine .enrolled registry ht hroom hregistered ?_
      rw [population_enroll, if_pos rfl]
    · refine .of_eq (tracker?_enroll_of_ne hu xs) ?_
      rw [population_enroll, if_neg hu, Nat.add_zero]
  | exchange => exact .of_eq rfl (population_alter_some _ _ fun _ => rfl)
  | @forget h held u hmay =>
    by_cases hu : u = t
    · subst hu
      refine .unchanged (fun _ => #[]) ?_ rfl
      rw [Heap.forget, tracker?_adjust, if_pos rfl]
    · refine .of_eq ?_ rfl
      rw [Heap.forget, tracker?_adjust, if_neg hu]

/-! ## Balanced accounts -/

/-- The account of a tracker shows the containers that it owns, and neither they nor the most there have
been are more than there may be. -/
def Balanced (h : Heap) (t : TrackerId) : Prop :=
  ∀ account, h.tracker? t = some account →
    account.live = h.population t ∧ account.live ≤ account.peak ∧ account.peak ≤ account.limit

theorem Entry.balanced (he : Entry h h' t) (hb : h.Balanced t) : h'.Balanced t := by
  intro account haccount
  cases he with
  | unchanged registry ht hp =>
    rw [ht, Option.map_eq_some_iff] at haccount
    obtain ⟨before, hbefore, rfl⟩ := haccount
    rw [hp]
    exact hb before hbefore
  | opened limit hnone ht hp =>
    obtain rfl := Option.some.inj (ht.symm.trans haccount)
    exact ⟨hp.symm, Nat.le_refl 0, Nat.zero_le limit⟩
  | enrolled registry hbefore hroom ht hp =>
    obtain rfl := Option.some.inj (ht.symm.trans haccount)
    obtain ⟨hlive, -, hpeak⟩ := hb _ hbefore
    refine ⟨?_, Nat.le_max_right _ _, Nat.max_le.mpr ⟨hpeak, hroom⟩⟩
    rw [hp, ← hlive]
  | @ended before hbefore ht hp =>
    obtain rfl := Option.some.inj (ht.symm.trans haccount)
    obtain ⟨hlive, hle, hpeak⟩ := hb _ hbefore
    -- there was one to take away
    have hone : before.live - 1 = h'.population t := by omega
    exact ⟨hone, (Nat.sub_le _ _).trans hle, hpeak⟩

/-- A tracker stays, with its limit. -/
theorem Entry.limit_eq (he : Entry h h' t) {before : Tracker} (hbefore : h.tracker? t = some before) :
    ∃ after, h'.tracker? t = some after ∧ after.limit = before.limit := by
  cases he with
  | unchanged registry ht =>
    rw [hbefore] at ht
    exact ⟨_, ht, rfl⟩
  | opened limit hnone => rw [hnone] at hbefore; cases hbefore
  | enrolled registry hsome hroom ht =>
    obtain rfl := Option.some.inj (hsome.symm.trans hbefore)
    exact ⟨_, ht, rfl⟩
  | ended hsome ht =>
    obtain rfl := Option.some.inj (hsome.symm.trans hbefore)
    exact ⟨_, ht, rfl⟩

/-- A step never lowers the largest count that the account shows. -/
theorem Entry.peak_le (he : Entry h h' t) {before after : Tracker}
    (hbefore : h.tracker? t = some before) (hafter : h'.tracker? t = some after) :
    before.peak ≤ after.peak := by
  cases he with
  | unchanged registry ht =>
    rw [hbefore, hafter] at ht
    cases ht
    exact Nat.le_refl _
  | opened limit hnone => rw [hnone] at hbefore; cases hbefore
  | enrolled registry hsome hroom ht =>
    obtain rfl := Option.some.inj (hsome.symm.trans hbefore)
    obtain rfl := Option.some.inj (ht.symm.trans hafter)
    exact Nat.le_max_left _ _
  | ended hsome ht =>
    obtain rfl := Option.some.inj (hsome.symm.trans hbefore)
    obtain rfl := Option.some.inj (ht.symm.trans hafter)
    exact Nat.le_refl _

/-! ## The largest count -/

/-- The counts that the account of a tracker showed at some moments. -/
def counts (t : TrackerId) (moments : List Moment) : Set Nat :=
  {n | ∃ a ∈ moments, ∃ account, a.heap.tracker? t = some account ∧ account.live = n}

theorem counts_cons_of_some {a : Moment} {account : Tracker} (ht : a.heap.tracker? t = some account)
    (moments : List Moment) : counts t (a :: moments) = insert account.live (counts t moments) := by
  ext n
  simp [counts, ht, eq_comm]

/-- A step keeps the largest count in the account. -/
theorem Entry.isGreatest_peak {a b : Moment} {past : List Moment} (he : Entry a.heap b.heap t)
    (hb : a.heap.Balanced t)
    (hpast : a.heap.tracker? t = none → counts t (a :: past) = ∅)
    (hpeak : ∀ before, a.heap.tracker? t = some before →
      IsGreatest (counts t (a :: past)) before.peak)
    {account : Tracker} (ht : b.heap.tracker? t = some account) :
    IsGreatest (counts t (b :: a :: past)) account.peak := by
  rw [counts_cons_of_some ht]
  cases he with
  | unchanged registry hafter =>
    rw [ht, eq_comm, Option.map_eq_some_iff] at hafter
    obtain ⟨before, hbefore, rfl⟩ := hafter
    have hgreatest := (hpeak before hbefore).insert before.live
    rwa [Nat.max_eq_right (hb before hbefore).2.1] at hgreatest
  | opened limit hnone hafter =>
    obtain rfl := Option.some.inj (hafter.symm.trans ht)
    rw [hpast hnone, insert_empty_eq]
    exact isGreatest_singleton
  | @enrolled before registry hbefore hroom hafter =>
    obtain rfl := Option.some.inj (hafter.symm.trans ht)
    have hgreatest := (hpeak before hbefore).insert (before.live + 1)
    rwa [Nat.max_comm] at hgreatest
  | @ended before hbefore hafter =>
    obtain rfl := Option.some.inj (hafter.symm.trans ht)
    have hle : before.live - 1 ≤ before.peak := (Nat.sub_le _ _).trans (hb before hbefore).2.1
    have hgreatest := (hpeak before hbefore).insert (before.live - 1)
    rwa [Nat.max_eq_right hle] at hgreatest

/-! ## Lasting containers -/

theorem created_dropItem (x : Item) : (h.dropItem x).created = h.created := by
  unfold dropItem dropHandle
  split
  · split
    · split
      · rw [created_alter, created_adjust]
      · rw [created_alter]
    · rfl
  · rfl

theorem Step.created_le {may : Effect → Prop} {a b : Moment} (hs : Step may a b) :
    a.heap.created ≤ b.heap.created := by
  cases hs with
  | perm | leaf | allocate | openTracker | forget => exact Nat.le_refl _
  | share => exact Nat.le_of_eq (created_share _ _).symm
  | drop => exact Nat.le_of_eq (created_dropItem _).symm
  | enroll =>
    rw [created_enroll]
    exact Nat.le_succ _
  | exchange => exact Nat.le_of_eq (created_alter _ _).symm

/-- A container that was created before a step and exists after it has existed, and its owner stays. -/
theorem Step.lasting {may : Effect → Prop} {a b : Moment} (hs : Step may a b) {c : ContainerId}
    (hlt : c < a.heap.created) (hc : b.heap.alive c = true) :
    a.heap.alive c = true ∧ a.heap.owner c = b.heap.owner c := by
  cases hs with
  | perm | leaf | allocate | openTracker | forget => exact ⟨hc, rfl⟩
  | share =>
    rw [alive_share] at hc
    exact ⟨hc, (owner_share _ _ _).symm⟩
  | drop =>
    obtain ⟨hbefore, howner, -⟩ := eq_of_alive_dropItem hc
    exact ⟨hbefore, howner.symm⟩
  | enroll =>
    have hne : c ≠ _ := Nat.ne_of_lt hlt
    rw [alive_enroll, decide_eq_false hne, Bool.false_or] at hc
    rw [owner_enroll, if_neg hne]
    exact ⟨hc, rfl⟩
  | @exchange h _ _ d ys =>
    rw [alive_alter_some] at hc
    refine ⟨hc, (owner_alter_some (fun k => { k with items := ys }) (fun _ => rfl) d c).symm⟩

/-! ## Histories -/

/-- What the accounts show at a moment, given the moments before it. -/
structure Moment.Balances (now : Moment) (past : List Moment) : Prop where
  /-- A container exists as long as there is a handle to it, outside or in a container that exists. -/
  alive_iff : ∀ c, now.heap.alive c = true ↔ (∃ x ∈ now.held, x.container? = some c)
    ∨ ∃ d, now.heap.alive d = true ∧ ∃ x ∈ now.heap.items d, x.container? = some c
  /-- A container that exists has existed ever since it was created, with one owner. -/
  lasting : ∀ a ∈ past, ∀ c < a.heap.created, now.heap.alive c = true →
    a.heap.alive c = true ∧ a.heap.owner c = now.heap.owner c
  live_eq : ∀ t account, now.heap.tracker? t = some account → account.live = now.heap.population t
  /-- Whenever a container ends, its tracker has one to take away. -/
  live_pos : ∀ c, now.heap.alive c = true →
    ∃ account, now.heap.tracker? (now.heap.owner c) = some account ∧ 0 < account.live
  live_le_peak : ∀ t account, now.heap.tracker? t = some account → account.live ≤ account.peak
  peak_le_limit : ∀ t account, now.heap.tracker? t = some account → account.peak ≤ account.limit
  isGreatest_peak : ∀ t account, now.heap.tracker? t = some account →
    IsGreatest (counts t (now :: past)) account.peak
  /-- A tracker stays, with its limit. -/
  limit_eq : ∀ a ∈ past, ∀ t before, a.heap.tracker? t = some before →
    ∃ after, now.heap.tracker? t = some after ∧ after.limit = before.limit
  refused_iff : ∀ t account, now.heap.tracker? t = some account → ∀ xs,
    (∃ e, (now.heap.create t xs).1 = .error e) ↔ account.limit ≤ account.live

/-- A creation is refused if the tracker is full, and else accepted. -/
theorem create_eq_error_iff {account : Tracker} (ht : h.tracker? t = some account)
    (xs : Array Item) :
    (∃ e, (h.create t xs).1 = .error e) ↔ account.limit ≤ account.live := by
  by_cases hroom : account.live < account.limit
  · rw [create_of_lt ht hroom]
    simp [hroom]
  · rw [create_of_le ht (Nat.le_of_not_lt hroom)]
    simp [Nat.le_of_not_lt hroom]

namespace Steps

variable {may : Effect → Prop} {start b : Moment} {past : List Moment}

theorem limit_eq (hr : Steps may start past b) (ha : start.heap.Accounted start.held)
    {before : Tracker} (hbefore : start.heap.tracker? t = some before) :
    ∃ after, b.heap.tracker? t = some after ∧ after.limit = before.limit := by
  induction hr with
  | refl => exact ⟨before, hbefore, rfl⟩
  | next hr hs ih =>
    obtain ⟨between, ht, hlimit⟩ := ih
    obtain ⟨after, hafter, heq⟩ := (hs.entry (hr.accounted ha) t).limit_eq ht
    exact ⟨after, hafter, heq.trans hlimit⟩

theorem peak_le (hr : Steps may start past b) (ha : start.heap.Accounted start.held)
    {before after : Tracker} (hbefore : start.heap.tracker? t = some before)
    (hafter : b.heap.tracker? t = some after) : before.peak ≤ after.peak := by
  induction hr generalizing after with
  | refl =>
    obtain rfl := Option.some.inj (hbefore.symm.trans hafter)
    exact Nat.le_refl _
  | next hr hs ih =>
    obtain ⟨between, ht, -⟩ := hr.limit_eq ha hbefore
    exact (ih ht).trans ((hs.entry (hr.accounted ha) t).peak_le ht hafter)

theorem created_le (hr : Steps may start past b) : start.heap.created ≤ b.heap.created := by
  induction hr with
  | refl => exact Nat.le_refl _
  | next _ hs ih => exact ih.trans hs.created_le

theorem lasting (hr : Steps may start past b) {c : ContainerId} (hlt : c < start.heap.created)
    (hc : b.heap.alive c = true) :
    start.heap.alive c = true ∧ start.heap.owner c = b.heap.owner c := by
  induction hr with
  | refl => exact ⟨hc, rfl⟩
  | next hr hs ih =>
    obtain ⟨hbetween, howner⟩ := hs.lasting (hlt.trans_le hr.created_le) hc
    obtain ⟨hbefore, heq⟩ := ih hbetween
    exact ⟨hbefore, heq.trans howner⟩

theorem balanced (hr : Steps may .empty past b) (t : TrackerId) : b.heap.Balanced t := by
  induction hr with
  | refl =>
    intro account ht
    simp [Moment.empty, Heap.empty, tracker?] at ht
  | next hr hs ih => exact (hs.entry (hr.accounted accounted_empty) t).balanced ih

/-- **The peak.** The account of a tracker shows the largest count that there has been at any moment. -/
theorem isGreatest_peak (hr : Steps may .empty past b) {account : Tracker}
    (ht : b.heap.tracker? t = some account) : IsGreatest (counts t (b :: past)) account.peak := by
  induction hr generalizing account with
  | refl => simp [Moment.empty, Heap.empty, tracker?] at ht
  | @next past a b hr hs ih =>
    refine (hs.entry (hr.accounted accounted_empty) t).isGreatest_peak (hr.balanced t) ?_
      (fun before hbefore => ih hbefore) ht
    -- a tracker that is not there has not been there
    intro hnone
    refine Set.eq_empty_iff_forall_notMem.mpr ?_
    rintro n ⟨d, hd, before, hbefore, -⟩
    rcases List.mem_cons.mp hd with rfl | hd
    · rw [hnone] at hbefore
      cases hbefore
    · obtain ⟨earlier, later, hto, hfrom⟩ := hr.split hd
      obtain ⟨after, hafter, -⟩ := hfrom.limit_eq (hto.accounted accounted_empty) hbefore
      rw [hnone] at hafter
      cases hafter

/-- **Balanced accounts.** At every moment to which steps lead from the empty heap the accounts show the
containers that there are, and the largest number of them that there has been. -/
theorem balances (hr : Steps may .empty past b) : b.Balances past where
  alive_iff _ := (hr.accounted accounted_empty).alive_iff_handle
  lasting a ha c hlt hc := by
    obtain ⟨earlier, later, -, hfrom⟩ := hr.split ha
    exact hfrom.lasting hlt hc
  live_eq t account ht := (hr.balanced t account ht).1
  live_pos c hc := by
    obtain ⟨account, ht⟩ := (hr.accounted accounted_empty).wellFormed.exists_tracker? hc
    refine ⟨account, ht, ?_⟩
    rw [(hr.balanced _ account ht).1]
    exact population_pos hc
  live_le_peak t account ht := (hr.balanced t account ht).2.1
  peak_le_limit t account ht := (hr.balanced t account ht).2.2
  isGreatest_peak _ _ ht := hr.isGreatest_peak ht
  limit_eq a ha t before hbefore := by
    obtain ⟨earlier, later, hto, hfrom⟩ := hr.split ha
    exact hfrom.limit_eq (hto.accounted accounted_empty) hbefore
  refused_iff _ _ ht xs := create_eq_error_iff ht xs

end Steps

end Heap

end BoundedVm
