import BoundedVm.Proofs.Heap.Emptying
import BoundedVm.Proofs.Machine.Accounts

/-! # What the end of an execution reclaims

The end of an execution discards the containers of its tracker, and so may requests before. A discard
empties what was made since the one before; what has outlived that one is registered no more and keeps
what it holds. So the end of an execution takes apart all circles but those that were closed through
containers which had outlived an earlier discard, and without these nothing remains once the last handle
from outside has gone.

* `Machine.lastDiscard`: the containers that had been made when a tracker was last discarded.
* `Machine.registeredFrom_reached`: after any requests the registry knows those made since.
* `Machine.discard_reached`: what one discard counts, empties and ends after any requests.
* `Machine.discard_reclaims`: what a discard empties, and when nothing remains.
* `Machine.outlived_remains`: a circle that remains. -/

namespace BoundedVm

namespace Machine

/-- The number of containers that had been made when the containers of a tracker were last discarded,
none if they never were. -/
def lastDiscard (t : TrackerId) : List Request → ContainerId
  | [] => 0
  | r :: earlier =>
    if (reached earlier).discarded? r = some t then (reached earlier).heap.created
    else lastDiscard t earlier

variable {t : TrackerId} {m : Machine} {r : Request}

/-! ## Requests that discard -/

theorem endScope_of_running {name : String} (ht : m.running? name = some t) :
    ∃ scopes, endScope name m = .ok true ⟨(m.heap.discard t).2, m.slots, m.scripts, scopes⟩ := by
  unfold running? at ht
  obtain ⟨s, hs, rfl⟩ := Option.map_eq_some_iff.mp ht
  obtain ⟨hlookup, hrunning⟩ := Option.filter_eq_some_iff.mp hs
  refine ⟨putNamed name { s with running := false } m.scopes, ?_⟩
  simp [endScope, hlookup, hrunning]

/-- To open a scope over a new tracker ends the execution that bore the name. -/
theorem openTracker_of_running {name : String} (ht : m.running? name = some t) (limit : Nat)
    (limits : Limits) (running : Bool) : ∃ scopes, openTracker name limit limits running m
      = .ok () ⟨((m.heap.discard t).2.openTracker limit).2, m.slots, m.scripts, scopes⟩ := by
  obtain ⟨scopes, hend⟩ := endScope_of_running ht
  exact ⟨_, by simp only [openTracker, bind, EStateM.bind, hend, onHeap]; rfl⟩

/-- A request that discards does nothing else to the heap, unless it opens a tracker. -/
theorem heap_after_of_discarded (hr : m.discarded? r = some t) :
    (m.after r).heap = (m.heap.discard t).2
      ∨ ∃ limit, (m.after r).heap = ((m.heap.discard t).2.openTracker limit).2 := by
  obtain ⟨name, store, limits, operation⟩ := r
  cases operation with
  | discard =>
    obtain ⟨s, hs, rfl⟩ := Option.map_eq_some_iff.mp hr
    exact .inl (by simp [after, perform, scope, find, onHeap, bind, EStateM.bind, hs]; rfl)
  | endScope =>
    obtain ⟨scopes, hend⟩ := endScope_of_running hr
    exact .inl (by simp only [after, perform, bind, EStateM.bind, hend]; rfl)
  | openTracker limit =>
    obtain ⟨scopes, hopen⟩ := openTracker_of_running hr limit .standard false
    exact .inr ⟨limit, by simp only [after, perform, bind, EStateM.bind, hopen]; rfl⟩
  | openScope limits =>
    unfold discarded? at hr
    simp only at hr
    cases hl : limits.validate with
    | error e =>
      rw [hl] at hr
      cases hr
    | ok limits =>
      rw [hl] at hr
      obtain ⟨scopes, hopen⟩ := openTracker_of_running hr limits.maxStackSize.toNat limits true
      exact .inr ⟨_, by simp only [after, perform, openScope, hl, bind, EStateM.bind, hopen]; rfl⟩
  | _ => cases hr

/-- A container that is left by a request that discards existed before; it is empty if it was
registered, and else holds what it held. -/
theorem items_after_of_discarded (hr : m.discarded? r = some t) {c : ContainerId}
    (hc : (m.after r).heap.alive c = true) :
    m.heap.alive c = true ∧ (m.after r).heap.owner c = m.heap.owner c
      ∧ (m.after r).heap.items c = if c ∈ m.heap.registered t then #[] else m.heap.items c := by
  rcases heap_after_of_discarded hr with heq | ⟨limit, heq⟩
  · rw [heq] at hc ⊢
    exact Heap.items_discard hc
  · rw [heq] at hc ⊢
    exact Heap.items_discard hc

/-! ## The registry of a machine -/

theorem created_le_after (hm : m.Reachable) (r : Request) :
    m.heap.created ≤ (m.after r).heap.created := by
  obtain ⟨past, hsteps⟩ := leads_after hm r
  exact hsteps.created_le

theorem lastDiscard_le_created (t : TrackerId) (requests : List Request) :
    lastDiscard t requests ≤ (reached requests).heap.created := by
  induction requests with
  | nil => exact Nat.zero_le _
  | cons r earlier ih =>
    have hle := created_le_after (reached_reachable earlier) r
    rw [lastDiscard]
    split
    · exact hle
    · exact ih.trans hle

/-- **What is registered.** After any requests the registry of a tracker knows, of the containers that
exist, exactly its own that were made since the last discard. -/
theorem registeredFrom_reached (t : TrackerId) (requests : List Request) :
    (reached requests).heap.RegisteredFrom t (lastDiscard t requests) := by
  induction requests with
  | nil =>
    constructor
    · intro c hc
      simp [reached, empty, Heap.empty, Heap.alive, Heap.container?] at hc
    · rintro c ⟨account, ht, -⟩
      simp [reached, empty, Heap.empty, Heap.tracker?] at ht
  | cons r earlier ih =>
    rw [lastDiscard]
    by_cases hr : (reached earlier).discarded? r = some t
    · rw [if_pos hr]
      have hdiscard := Heap.registeredFrom_discard (reached earlier).heap t
      rcases heap_after_of_discarded hr with heq | ⟨limit, heq⟩
      · rw [reached, heq]
        exact hdiscard
      · -- the new tracker has no registrations yet
        rw [reached, heq]
        exact ⟨fun c hc => (Heap.lists_openTracker limit).trans (hdiscard.lists_iff c hc),
          fun c hc => hdiscard.lt_created c ((Heap.lists_openTracker limit).mp hc)⟩
    · rw [if_neg hr]
      obtain ⟨past, hsteps⟩ := leads_after (reached_reachable earlier) r
      exact hsteps.registeredFrom hr (lastDiscard_le_created t earlier) ih

/-! ## One discard -/

/-- The containers of a tracker that exist after some requests and were made since the last discard. -/
def Undiscarded (t : TrackerId) (requests : List Request) (c : ContainerId) : Prop :=
  (reached requests).heap.alive c = true ∧ (reached requests).heap.owner c = t ∧
    lastDiscard t requests ≤ c

instance (t : TrackerId) (requests : List Request) : DecidablePred (Undiscarded t requests) :=
  fun _ => inferInstanceAs (Decidable (_ ∧ _ ∧ _))

/-- **What one discard does.** After any requests, a discard counts the containers of the tracker that
exist and were made since the last one. It empties them, whatever they hold and in whatever circles, and
ends those containers, of any tracker, that reference counting frees then. The accounts lose what has
ended, and nothing else is changed. -/
theorem discard_reached (requests : List Request) (t : TrackerId) :
    (((reached requests).heap.discard t).1 : ℕ∞) = {c | Undiscarded t requests c}.encard ∧
      Heap.Discarded (Undiscarded t requests) (reached requests).handles (reached requests).heap
        ((reached requests).heap.discard t).2 := by
  have hfound : ∀ c, c ∈ (reached requests).heap.registered t ↔ Undiscarded t requests c :=
    fun c => (registeredFrom_reached t requests).mem_registered
  constructor
  · obtain ⟨past, hrun⟩ := exists_run requests
    have honce : (reached requests).heap.RegistersOnce t := hrun.steps.registersOnce t
    rw [honce.discard_fst]
    exact congrArg Set.encard (Set.ext hfound)
  · exact Heap.discarded_of_registered (reached_reachable requests).heap hfound

/-! ## What is reclaimed -/

/-- The requests that put nothing into a container leave only what there was. -/
theorem shrinks_reached {later : List Request} (hlater : ∀ r ∈ later, r.operation.stores = false)
    (earlier : List Request) :
    (reached earlier).heap.Shrinks (reached (later ++ earlier)).heap := by
  induction later with
  | nil => exact fun c hc => ⟨hc, rfl, fun _ hx => hx⟩
  | cons r later ih =>
    obtain ⟨hr, hrest⟩ := List.forall_mem_cons.mp hlater
    obtain ⟨past, hsteps⟩ := leads_after (reached_reachable (later ++ earlier)) r
    have hstep := hsteps.shrinks (by simp [Does, hr])
    exact (ih hrest).trans hstep

/-- A tracker stays. -/
theorem exists_tracker?_reached {earlier : List Request} {before : Tracker}
    (ht : (reached earlier).heap.tracker? t = some before) (later : List Request) :
    ∃ account, (reached (later ++ earlier)).heap.tracker? t = some account := by
  induction later with
  | nil => exact ⟨before, ht⟩
  | cons r later ih =>
    obtain ⟨between, hbetween⟩ := ih
    have hm := reached_reachable (later ++ earlier)
    obtain ⟨past, hsteps⟩ := leads_after hm r
    obtain ⟨account, haccount, -⟩ := hsteps.limit_eq hm.heap.accounted hbetween
    exact ⟨account, haccount⟩

/-- **What a discard reclaims.** A request that discards the containers of a tracker empties those that
were made since the last discard and leaves what the others hold. If those others do not hold one
another in a circle, then, once requests that put nothing into containers have given up every handle to
a container of the tracker from a slot or from a container of another tracker, the tracker counts
none. -/
theorem discard_reclaims {earlier : List Request} {before : Tracker}
    (hr : (reached earlier).discarded? r = some t)
    (ht : (reached earlier).heap.tracker? t = some before) :
    (∀ c, (reached (r :: earlier)).heap.alive c = true →
        (reached (r :: earlier)).heap.owner c = t →
      (reached (r :: earlier)).heap.items c
        = if lastDiscard t earlier ≤ c then #[] else (reached earlier).heap.items c) ∧
    (¬ (reached earlier).heap.HasCycle
        (fun c => c < lastDiscard t earlier ∧ (reached earlier).heap.owner c = t) →
      ∀ later, (∀ r ∈ later, r.operation.stores = false) →
        Heap.Unheld t (reached (later ++ r :: earlier)).moment →
        ∃ account, (reached (later ++ r :: earlier)).heap.tracker? t = some account ∧
          account.live = 0) := by
  have hemptied : ∀ c, (reached (r :: earlier)).heap.alive c = true →
      (reached (r :: earlier)).heap.owner c = t → (reached earlier).heap.owner c = t ∧
        (reached (r :: earlier)).heap.items c
          = if lastDiscard t earlier ≤ c then #[] else (reached earlier).heap.items c := by
    intro c hc howner
    obtain ⟨hbefore, hsame, hitems⟩ := items_after_of_discarded hr hc
    have hregistered := (registeredFrom_reached t earlier).mem_registered (c := c)
    refine ⟨hsame.symm.trans howner, hitems.trans (if_congr ?_ rfl rfl)⟩
    rw [hregistered]
    exact ⟨fun hall => hall.2.2, fun hle => ⟨hbefore, hsame.symm.trans howner, hle⟩⟩
  refine ⟨fun c hc howner => (hemptied c hc howner).2, fun hcycle later hlater hunheld => ?_⟩
  have hm := reached_reachable (later ++ r :: earlier)
  have hshrinks := shrinks_reached hlater (r :: earlier)
  -- a circle at the end would have been one of containers that outlived the discard before
  have hnone : ¬ (reached (later ++ r :: earlier)).heap.HasCycle
      fun c => (reached (later ++ r :: earlier)).heap.owner c = t := by
    intro hend
    refine hcycle (hend.mono fun c hc x hx => ?_)
    obtain ⟨halive, howner, hitems⟩ := hshrinks c (Heap.alive_of_mem_items hx)
    obtain ⟨hbefore, hleft⟩ := hemptied c halive (howner.symm.trans hc)
    have hmem := hitems x hx
    rw [hleft] at hmem
    by_cases hlast : lastDiscard t earlier ≤ c
    · rw [if_pos hlast] at hmem
      simp at hmem
    · rw [if_neg hlast] at hmem
      exact ⟨⟨Nat.lt_of_not_le hlast, hbefore⟩, hmem⟩
  have hpopulation := Heap.population_eq_zero_of_unheld hm.heap.accounted hunheld hnone
  obtain ⟨between, hbetween⟩ := exists_tracker?_reached ht [r]
  obtain ⟨account, haccount⟩ := exists_tracker?_reached hbetween later
  obtain ⟨past, hrun⟩ := exists_run (later ++ r :: earlier)
  refine ⟨account, haccount, ?_⟩
  exact (hrun.steps.balanced t account haccount).1.trans hpopulation

/-- Two structs that hold each other are made in an execution. -/
def ring : List Request :=
  [⟨"main", none, none, .push "b" (.copy "a") 1⟩, ⟨"main", none, none, .push "a" (.copy "b") 1⟩,
    ⟨"main", some "b", none, .create .struct []⟩, ⟨"main", some "a", none, .create .struct []⟩,
    ⟨"main", none, none, .openScope .standard⟩]

/-- The execution ends. -/
def ending : Request := ⟨"main", none, none, .endScope⟩

/-- The slots are given up. -/
def leaving : List Request :=
  [⟨"main", none, none, .drop "a"⟩, ⟨"main", none, none, .drop "b"⟩]

theorem discard_reclaims_ring :
    (reached ring).usage? "main" = some (2, 2) ∧ (reached ring).discarded? ending = some 0 ∧
      ∃ account, (reached (leaving ++ ending :: ring)).heap.tracker? 0 = some account ∧
        account.live = 0 := by
  have husage : (reached ring).usage? "main" = some (2, 2) := by cbv
  have hr : (reached ring).discarded? ending = some 0 := by cbv
  have ht : (reached ring).heap.tracker? 0 = some ⟨2048, 2, 2, #[0, 1]⟩ := by cbv
  -- nothing has outlived an earlier discard, since there was none
  have hlast : lastDiscard 0 ring = 0 := by cbv
  have hcycle : ¬ (reached ring).heap.HasCycle
      fun c => c < lastDiscard 0 ring ∧ (reached ring).heap.owner c = 0 := by
    rintro ⟨c, hc⟩
    obtain ⟨d, hd, -⟩ := Relation.TransGen.head'_iff.mp hc
    exact Nat.not_lt_zero c (hlast ▸ hd.1.1)
  have hstores : ∀ r ∈ leaving, r.operation.stores = false := by decide
  have hunheld : Heap.Unheld 0 (reached (leaving ++ ending :: ring)).moment := by
    have hcontainers : (reached (leaving ++ ending :: ring)).heap.containers = #[none, none] := by cbv
    refine Heap.unheld_of_owner_eq (by cbv) ?_
    simp only [moment, Heap.created, Heap.alive, Heap.owner, Heap.container?, hcontainers]
    decide
  exact ⟨husage, hr, (discard_reclaims hr ht).2 hcycle leaving hstores hunheld⟩

/-- A struct is discarded while a slot holds it, and then it is put into itself and the slot given up. -/
def outliving : List Request :=
  [⟨"main", none, none, .drop "s"⟩, ⟨"main", none, none, .push "s" (.copy "s") 1⟩,
    ⟨"main", none, none, .discard⟩, ⟨"main", some "s", none, .create .struct []⟩,
    ⟨"main", none, none, .openScope .standard⟩]

/-- **A circle that remains.** The end of an execution does not empty a struct that has outlived an
earlier discard: its registration was forgotten there. Nothing else holds it, and it still counts. -/
theorem outlived_remains :
    (reached outliving).discarded? ending = some 0 ∧
      Heap.Unheld 0 (reached (ending :: outliving)).moment ∧
      (reached (ending :: outliving)).heap.alive 0 = true ∧
      (reached (ending :: outliving)).heap.owner 0 = 0 ∧
      (reached (ending :: outliving)).heap.items 0 = #[.struct 0] ∧
      (reached (ending :: outliving)).usage? "main" = some (1, 1) := by
  have hcontainers : (reached (ending :: outliving)).heap.containers
      = #[some ⟨#[.struct 0], 0, 1⟩] := by cbv
  refine ⟨by cbv, Heap.unheld_of_owner_eq (by cbv) ?_, by cbv, by cbv, by cbv, by cbv⟩
  simp only [moment, Heap.created, Heap.alive, Heap.owner, Heap.container?, hcontainers]
  decide

end Machine

end BoundedVm
