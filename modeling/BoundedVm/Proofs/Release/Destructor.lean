import BoundedVm.Proofs.Release.Recursion
import Mathlib.Logic.Function.Iterate

/-! # Release by destructors

A handle that is given up takes one off the count of its container, and the destructor of the container
begins when none is left. It tells the tracker and takes the items out, and then it gives them up from
the last one on. Were this all, the destructors of a chain of containers would run inside one another.
Hence a destructor looks at a handle before it gives it up: if it is the last one, the items of its
container are moved to those that are pending here, so that the destructor that begins finds nothing.

`Heap.Teardown` follows the destructors that run at a time, turn by turn. The order in which containers
end is another one than that of `Heap.release`, in which the same handles are given up.

* `Teardown.length_running_le`: no more than two destructors run at a time, on any heap.
* `Teardown.exists_iterate_step`: they come to an end, on any heap.
* `Heap.Midway`: what holds of the heap between two turns.
* `Heap.teardown_exact`: what giving up one handle comes to. -/

namespace BoundedVm

namespace Heap

/-- A release in the midst of destructors. -/
structure Teardown where
  heap : Heap
  /-- The pending items of the destructors that run, those of the innermost first, and of each the one
  that it takes next first. -/
  running : List (List Item)
  /-- The containers whose destructors have begun, each with the tracker that was told, the latest
  first. -/
  ended : List (ContainerId × TrackerId)

namespace Teardown

/-- Gives up one handle. After the last one the destructor of the container begins: it tells the tracker
that owns the container, and what this still holds is pending. -/
def giveUp (x : Item) (s : Teardown) : Teardown :=
  match s.heap.lastHandle? x with
  | some c =>
    ⟨s.heap.dropItem x, (s.heap.items c).toList.reverse :: s.running, (c, s.heap.owner c) :: s.ended⟩
  | none => { s with heap := s.heap.dropItem x }

/-- One turn of the innermost destructor. It takes its next item, moves what a container holds that has
no other handle to the pending items, and gives the handle up; without an item it ends. -/
def step (s : Teardown) : Teardown :=
  match s.running with
  | [] => s
  | [] :: outer => { s with running := outer }
  | (x :: pending) :: outer =>
    match s.heap.lastHandle? x with
    | some c =>
      -- nothing else can be at the items of a container whose only handle is taken here
      let taken := s.heap.takeItems c
      giveUp x ⟨taken.2, (taken.1.toList.reverse ++ pending) :: outer, s.ended⟩
    | none => giveUp x { s with running := pending :: outer }

/-- A handle has been given up while no destructor was running. -/
def start (x : Item) (h : Heap) : Teardown :=
  giveUp x ⟨h, [], []⟩

variable {h : Heap} {x : Item} {c : ContainerId} {pending : List Item} {outer : List (List Item)}
  {ended : List (ContainerId × TrackerId)} {s : Teardown}

theorem giveUp_of_last {running : List (List Item)} (hx : h.lastHandle? x = some c) :
    giveUp x ⟨h, running, ended⟩
      = ⟨h.dropItem x, (h.items c).toList.reverse :: running, (c, h.owner c) :: ended⟩ := by
  simp only [giveUp, hx]

theorem giveUp_of_further {running : List (List Item)} (hx : h.lastHandle? x = none) :
    giveUp x ⟨h, running, ended⟩ = ⟨h.dropItem x, running, ended⟩ := by
  simp only [giveUp, hx]

theorem step_close : step ⟨h, [] :: outer, ended⟩ = ⟨h, outer, ended⟩ := rfl

/-- The destructor that begins within another one finds its container empty. -/
theorem step_last (hx : h.lastHandle? x = some c) :
    step ⟨h, (x :: pending) :: outer, ended⟩ = ⟨h.dropItem x,
      [] :: ((h.items c).toList.reverse ++ pending) :: outer, (c, h.owner c) :: ended⟩ := by
  obtain ⟨-, hone⟩ := Accounted.lastHandle?_eq_some_iff.1 hx
  have hc : h.alive c = true := Accounted.alive_of_handles_pos (hone ▸ Nat.one_pos)
  have htaken : (h.takeItems c).2.lastHandle? x = some c := (lastHandle?_takeItems c x).trans hx
  simp only [step, hx]
  rw [giveUp_of_last htaken, dropItem_takeItems hx, items_takeItems hc, owner_takeItems]
  rfl

theorem step_further (hx : h.lastHandle? x = none) :
    step ⟨h, (x :: pending) :: outer, ended⟩ = ⟨h.dropItem x, pending :: outer, ended⟩ := by
  simp only [step, hx]
  exact giveUp_of_further hx

/-! ## Nesting -/

/-- At most one destructor has items pending, and one that it has caused to begin has none. -/
def Shallow (s : Teardown) : Prop :=
  s.running = [] ∨ ∃ pending, s.running = [pending] ∨ s.running = [[], pending]

theorem shallow_start (x : Item) (h : Heap) : (start x h).Shallow := by
  cases hx : h.lastHandle? x with
  | none =>
    rw [start, giveUp_of_further hx]
    exact .inl rfl
  | some c =>
    rw [start, giveUp_of_last hx]
    exact .inr ⟨_, .inl rfl⟩

theorem Shallow.step (hs : s.Shallow) : s.step.Shallow := by
  obtain ⟨h, running, ended⟩ := s
  rcases hs with hnone | ⟨pending, hone | htwo⟩
  · obtain rfl : running = [] := hnone
    exact .inl rfl
  · obtain rfl : running = [pending] := hone
    cases pending with
    | nil => exact .inl rfl
    | cons x pending =>
      cases hx : h.lastHandle? x with
      | none =>
        rw [step_further hx]
        exact .inr ⟨pending, .inl rfl⟩
      | some c =>
        rw [step_last hx]
        exact .inr ⟨_, .inr rfl⟩
  · -- the inner destructor has nothing to do but end
    obtain rfl : running = [[], pending] := htwo
    exact .inr ⟨pending, .inl rfl⟩

/-- **Destructors do not pile up.** However deep containers hold one another, no more than two
destructors run at a time. -/
theorem length_running_le (x : Item) (h : Heap) (n : Nat) :
    (step^[n] (start x h)).running.length ≤ 2 := by
  have hshallow : (step^[n] (start x h)).Shallow := by
    induction n with
    | zero => exact shallow_start x h
    | succ n ih =>
      rw [Function.iterate_succ_apply']
      exact ih.step
  rcases hshallow with hrun | ⟨pending, hrun | hrun⟩ <;> simp [hrun]

/-! ## Termination -/

/-- What is left to do: an item takes two turns at most, one of them by the destructor that it
causes to begin. -/
def cost (s : Teardown) : Nat :=
  2 * (s.running.flatten.length + s.heap.itemCount) + s.running.length

theorem cost_step_lt (hs : s.running ≠ []) : s.step.cost < s.cost := by
  obtain ⟨h, running, ended⟩ := s
  match running with
  | [] => exact absurd rfl hs
  | [] :: outer => simp [step_close, cost]
  | (x :: pending) :: outer =>
    cases hx : h.lastHandle? x with
    | none =>
      have hdrop := itemCount_dropItem_le x h
      rw [step_further hx]
      simp only [cost, List.flatten_cons, List.length_append, List.length_cons]
      omega
    | some c =>
      have hitems := itemCount_dropItem_of_lastHandle hx
      rw [step_last hx]
      simp only [cost, List.flatten_cons, List.length_append, List.length_cons, List.length_nil,
        List.length_reverse, Array.length_toList]
      omega

/-- **Destructors end.** -/
theorem exists_iterate_step (s : Teardown) : ∃ n, (step^[n] s).running = [] := by
  induction hcost : s.cost using Nat.strongRecOn generalizing s with
  | ind cost ih =>
    by_cases hs : s.running = []
    · exact ⟨0, hs⟩
    · obtain ⟨n, hn⟩ := ih s.step.cost (hcost ▸ cost_step_lt hs) s.step rfl
      exact ⟨n + 1, hn⟩

end Teardown

/-! ## Between two turns -/

/-- What a place weighs by the items and the owner of its container. -/
def weigh (w : Array Item → TrackerId → Nat) : Option Container → Nat
  | some k => w k.items k.owner
  | none => 0

/-- The heap `k` after some turns, with the handles that are still to be given up and the containers that
have ended, if the handles `given` are given up in the heap `h` while the handles `held` stay. -/
structure Midway (given held : List Item) (h : Heap) (pending : List Item)
    (ended : List (ContainerId × TrackerId)) (k : Heap) : Prop where
  reachable : k.Reachable (pending ++ held)
  /-- What is left to be given up leads where all that was given does. -/
  release_eq : k.release pending = h.release given
  nodup : (ended.map Prod.fst).Nodup
  alive_iff : ∀ c, h.alive c = true ↔ k.alive c = true ∨ c ∈ ended.map Prod.fst
  ended_eq : ∀ e ∈ ended, k.alive e.1 = false ∧ h.owner e.1 = e.2
  view_eq : ∀ c, k.alive c = true → k.items c = h.items c ∧ k.owner c = h.owner c
  total_add : ∀ w, k.total (weigh w) + (ended.map fun e => w (h.items e.1) (h.owner e.1)).sum
    = h.total (weigh w)

variable {h k : Heap} {x : Item} {c d : ContainerId} {t : TrackerId}
  {given held pending rest : List Item} {ended : List (ContainerId × TrackerId)}

theorem weigh_container? (w : Array Item → TrackerId → Nat) (c : ContainerId) :
    weigh w (h.container? c) = if h.alive c then w (h.items c) (h.owner c) else 0 := by
  rw [alive_eq_isSome]
  cases hk : h.container? c with
  | none => rfl
  | some k => rw [items_of_container? hk, owner_of_container? hk]; rfl

theorem alive_dropItem_of_lastHandle (hx : h.lastHandle? x = some c) :
    (h.dropItem x).alive d = (decide (d ≠ c) && h.alive d) := by
  by_cases hd : d = c
  · subst hd
    rw [← dropItem_takeItems hx, not_alive_dropItem_of_lastHandle hx,
      decide_eq_false (not_not.mpr rfl), Bool.false_and]
  · obtain ⟨hxc, -⟩ := Accounted.lastHandle?_eq_some_iff.1 hx
    have hne : x.container? ≠ some d := by simpa [hxc] using Ne.symm hd
    rw [alive_eq_isSome, container?_dropItem_of_ne hne, decide_eq_true hd, Bool.true_and,
      alive_eq_isSome]

/-- With the last handle the weight of the container goes. -/
theorem total_dropItem_of_lastHandle (weight : Option Container → Nat) (hnone : weight none = 0)
    (hx : h.lastHandle? x = some c) :
    (h.dropItem x).total weight + weight (h.container? c) = h.total weight := by
  obtain ⟨hxc, hone⟩ := Accounted.lastHandle?_eq_some_iff.1 hx
  have hc : h.alive c = true := Accounted.alive_of_handles_pos (hone ▸ Nat.one_pos)
  have hsum := (h.adjust (h.owner c) Tracker.unregister).total_alter weight c fun _ => none
  have hgone : (h.container? c).bind (fun _ => (none : Option Container)) = none := by
    cases h.container? c <;> rfl
  rw [container?_adjust, hgone, hnone, total_adjust, Nat.add_zero] at hsum
  simpa only [dropItem, hxc, hc, if_true, dropHandle, hone, Nat.le_refl] using hsum

/-- To give up a handle alone that is the last one to an empty container takes this with it. -/
theorem release_takeItems (hx : h.lastHandle? x = some c) :
    (h.takeItems c).2.release [x] = h.dropItem x := by
  obtain ⟨-, hone⟩ := Accounted.lastHandle?_eq_some_iff.1 hx
  have hc : h.alive c = true := Accounted.alive_of_handles_pos (hone ▸ Nat.one_pos)
  have htaken : (h.takeItems c).2.lastHandle? x = some c := (lastHandle?_takeItems c x).trans hx
  rw [release_of_lastHandle?_eq_some htaken, dropItem_takeItems htaken, dropItem_takeItems hx,
    items_takeItems hc]
  exact release_nil _

namespace Midway

theorem refl (hr : h.Reachable (given ++ held)) : Midway given held h given [] h where
  reachable := hr
  release_eq := rfl
  nodup := List.nodup_nil
  alive_iff c := by simp
  ended_eq e he := by cases he
  view_eq _ _ := ⟨rfl, rfl⟩
  total_add w := rfl

theorem perm (hm : Midway given held h pending ended k) (hp : pending.Perm rest) :
    Midway given held h rest ended k :=
  { hm with
    reachable := hm.reachable.perm (hp.append_right held)
    release_eq := (hm.reachable.release_perm hp).trans hm.release_eq }

/-- A handle that is not the last one is given up. -/
theorem further (hm : Midway given held h (x :: rest) ended k) (hx : k.lastHandle? x = none) :
    Midway given held h rest ended (k.dropItem x) := by
  have hview := hm.reachable.accounted.view_dropItem hx
  have hsingle : k.release [x] = k.dropItem x := by
    rw [release_of_lastHandle?_eq_none hx, release_nil]
  have howner : ∀ c, k.alive c = true → (k.dropItem x).owner c = k.owner c := fun c hc =>
    (eq_of_alive_dropItem ((hview c).1.trans hc)).2.1
  refine ⟨?_, ?_, hm.nodup, fun c => ?_, fun e he => ?_, fun c hc => ?_, fun w => ?_⟩
  · have hgiven : k.Reachable ([x] ++ (rest ++ held)) := hm.reachable
    rw [← hsingle]
    exact hgiven.release
  · rw [← hm.release_eq, release_of_lastHandle?_eq_none hx]
  · rw [(hview c).1]
    exact hm.alive_iff c
  · rw [(hview e.1).1]
    exact hm.ended_eq e he
  · have hbefore := (hview c).1.symm.trans hc
    obtain ⟨hitems, hsame⟩ := hm.view_eq c hbefore
    exact ⟨(hview c).2.trans hitems, (howner c hbefore).trans hsame⟩
  · rw [← hm.total_add w]
    congr 1
    refine total_congr (created_dropItem x) fun c => ?_
    rw [weigh_container?, weigh_container?, (hview c).1, (hview c).2]
    by_cases hc : k.alive c = true
    · rw [howner c hc]
    · rw [if_neg hc, if_neg hc]

/-- The last handle to a container is given up, and what the container held is pending. -/
theorem last (hm : Midway given held h (x :: rest) ended k) (hx : k.lastHandle? x = some c) :
    Midway given held h ((k.items c).toList ++ rest) ((c, k.owner c) :: ended) (k.dropItem x) := by
  obtain ⟨hxc, hone⟩ := Accounted.lastHandle?_eq_some_iff.1 hx
  have hc : k.alive c = true := Accounted.alive_of_handles_pos (hone ▸ Nat.one_pos)
  have hnew : c ∉ ended.map Prod.fst := by
    intro hmem
    obtain ⟨e, he, rfl⟩ := List.mem_map.mp hmem
    rw [(hm.ended_eq e he).1] at hc
    cases hc
  obtain ⟨hitems, howner⟩ := hm.view_eq c hc
  refine ⟨?_, ?_, ?_, fun d => ?_, fun e he => ?_, fun d hd => ?_, fun w => ?_⟩
  · have htaken : (k.takeItems c).2.Reachable ((k.items c).toList ++ x :: (rest ++ held)) :=
      hm.reachable.exchange hc (.refl _)
    have hgiven : (k.takeItems c).2.Reachable ([x] ++ ((k.items c).toList ++ (rest ++ held))) :=
      htaken.perm List.perm_middle
    rw [← release_takeItems hx, List.append_assoc]
    exact hgiven.release
  · rw [← hm.release_eq, release_of_lastHandle?_eq_some hx, dropItem_takeItems hx]
  · exact List.nodup_cons.mpr ⟨hnew, hm.nodup⟩
  · rw [hm.alive_iff, alive_dropItem_of_lastHandle hx, List.map_cons, List.mem_cons]
    by_cases hd : d = c
    · simp [hd, hc]
    · simp [hd]
  · rw [alive_dropItem_of_lastHandle hx]
    rcases List.mem_cons.mp he with rfl | he
    · exact ⟨by simp, howner.symm⟩
    · obtain ⟨hdead, hold⟩ := hm.ended_eq e he
      exact ⟨by rw [hdead, Bool.and_false], hold⟩
  · obtain ⟨hbefore, hsame, hkept⟩ := eq_of_alive_dropItem hd
    obtain ⟨hitems, howner⟩ := hm.view_eq d hbefore
    exact ⟨hkept.trans hitems, hsame.trans howner⟩
  · have hgone := total_dropItem_of_lastHandle (weigh w) rfl hx
    have hbefore := hm.total_add w
    rw [weigh_container?, if_pos hc, hitems, howner] at hgone
    simp only [List.map_cons, List.sum_cons]
    omega

end Midway

namespace Teardown

/-- What holds between two turns of the destructors. -/
def Carries (given held : List Item) (h : Heap) (s : Teardown) : Prop :=
  Midway given held h s.running.flatten s.ended s.heap

theorem carries_start (hr : h.Reachable (x :: held)) : (start x h).Carries [x] held h := by
  have hm : Midway [x] held h [x] [] h := .refl hr
  cases hx : h.lastHandle? x with
  | none =>
    rw [start, giveUp_of_further hx]
    exact hm.further hx
  | some c =>
    rw [start, giveUp_of_last hx]
    refine (hm.last hx).perm ?_
    simp

theorem Carries.step {s : Teardown} (hs : s.Carries given held h) : s.step.Carries given held h := by
  obtain ⟨k, running, ended⟩ := s
  match running with
  | [] => exact hs
  | [] :: outer => exact hs
  | (x :: pending) :: outer =>
    have hm : Midway given held h (x :: (pending ++ outer.flatten)) ended k := hs
    cases hx : k.lastHandle? x with
    | none =>
      rw [step_further hx]
      exact hm.further hx
    | some c =>
      rw [step_last hx]
      refine (hm.last hx).perm ?_
      rw [← List.append_assoc]
      exact ((List.reverse_perm _).symm.append_right pending).append_right outer.flatten

theorem Carries.iterate {s : Teardown} (hs : s.Carries given held h) (n : Nat) :
    (Teardown.step^[n] s).Carries given held h := by
  induction n with
  | zero => exact hs
  | succ n ih =>
    rw [Function.iterate_succ_apply']
    exact ih.step

end Teardown

/-! ## What giving up a handle comes to -/

/-- What destructors have done when they have ended, after a handle has been given up in a heap. -/
structure TornDown (x : Item) (h : Heap) (s : Teardown) : Prop where
  running_eq : s.running = []
  /-- The heap is the one to which plain recursion comes. -/
  heap_eq_nested : s.heap = (releaseNested [x] h).1
  heap_eq_release : s.heap = h.release [x]
  /-- No container has ended twice. -/
  nodup : (s.ended.map Prod.fst).Nodup
  /-- A destructor has begun for each container that is no more, and has told the owner. -/
  mem_ended_iff : ∀ c t, (c, t) ∈ s.ended ↔
    h.alive c = true ∧ s.heap.alive c = false ∧ h.owner c = t
  /-- The containers that are left are as they were, -/
  view_eq : ∀ c, s.heap.alive c = true →
    h.alive c = true ∧ s.heap.items c = h.items c ∧ s.heap.owner c = h.owner c
  /-- but for the handles that were given up: the one handle and those held by what has ended. -/
  handles_add : ∀ c, s.heap.handles c
    + handlesTo c (x :: s.ended.flatMap fun e => (h.items e.1).toList) = h.handles c
  /-- A tracker has been told once for each of its containers, and nothing else of it has changed. -/
  account : ∀ t before, h.tracker? t = some before →
    ∃ live, s.heap.tracker? t = some { before with live := live }
      ∧ live + s.ended.countP (·.2 = t) = before.live

theorem keptAt_eq_weigh (c : ContainerId) :
    keptAt c = weigh fun items _ => handlesTo c items.toList := by
  funext place
  cases place <;> rfl

theorem ownedAt_eq_weigh (t : TrackerId) :
    ownedAt t = weigh fun _ owner => if owner = t then 1 else 0 := by
  funext place
  cases place <;> rfl

theorem Midway.handles_add (hm : Midway given held h [] ended k) (hr : h.Reachable (given ++ held))
    (c : ContainerId) :
    k.handles c + handlesTo c (given ++ ended.flatMap fun e => (h.items e.1).toList)
      = h.handles c := by
  have hkept := hm.total_add fun items _ => handlesTo c items.toList
  have hsum : handlesTo c (ended.flatMap fun e => (h.items e.1).toList)
      = (ended.map fun e => handlesTo c (h.items e.1).toList).sum := List.countP_flatMap
  rw [← keptAt_eq_weigh] at hkept
  rw [hm.reachable.accounted.handles_eq, hr.accounted.handles_eq, handlesTo_append,
    handlesTo_append, handlesTo_append, handlesTo_nil, hsum, kept, kept, ← hkept]
  omega

theorem Midway.population_add (hm : Midway given held h [] ended k) (t : TrackerId) :
    k.population t + ended.countP (·.2 = t) = h.population t := by
  have hpopulation := hm.total_add fun _ owner => if owner = t then 1 else 0
  have hcount : ∀ l : List (ContainerId × TrackerId), (∀ e ∈ l, h.owner e.1 = e.2) →
      (l.map fun e => if h.owner e.1 = t then 1 else 0).sum = l.countP (·.2 = t) := by
    intro l hl
    induction l with
    | nil => rfl
    | cons e l ih =>
      obtain ⟨he, hl⟩ := List.forall_mem_cons.mp hl
      rw [List.map_cons, List.sum_cons, ih hl, he, List.countP_cons, Nat.add_comm]
      simp only [decide_eq_true_eq]
  rw [← ownedAt_eq_weigh, hcount ended fun e he => (hm.ended_eq e he).2] at hpopulation
  exact hpopulation

/-- When nothing is pending any more, the heap is the one that the release of the given handles leaves. -/
theorem Midway.heap_eq (hm : Midway given held h [] ended k) : k = h.release given :=
  (release_nil k).symm.trans hm.release_eq

/-- Nothing is left to be done when no destructor runs any more. -/
theorem Teardown.Carries.tornDown {s : Teardown} (hs : s.Carries [x] held h)
    (hr : h.Reachable (x :: held)) (hrun : s.running = []) : TornDown x h s := by
  have hm : Midway [x] held h [] s.ended s.heap := by
    rwa [Teardown.Carries, hrun] at hs
  have hheap : s.heap = h.release [x] := hm.heap_eq
  refine ⟨hrun, ?_, hheap, hm.nodup, fun c t => ?_, fun c hc => ?_, hm.handles_add hr,
    fun t before hbefore => ?_⟩
  · rw [releaseNested_eq_release]
    exact hheap
  · constructor
    · intro hmem
      obtain ⟨hdead, howner⟩ := hm.ended_eq _ hmem
      exact ⟨(hm.alive_iff c).mpr (.inr (List.mem_map_of_mem hmem)), hdead, howner⟩
    · rintro ⟨hc, hdead, rfl⟩
      rcases (hm.alive_iff c).mp hc with halive | hmem
      · rw [hdead] at halive
        cases halive
      · obtain ⟨e, he, rfl⟩ := List.mem_map.mp hmem
        rw [(hm.ended_eq e he).2]
        exact he
  · exact ⟨(hm.alive_iff c).mpr (.inl hc), hm.view_eq c hc⟩
  · have hkept := map_tracker?_release (h := h) (f := fun a => (a.limit, a.peak, a.registry))
      (fun _ => rfl) [x] t
    rw [← hheap, hbefore, Option.map_some, Option.map_eq_some_iff] at hkept
    obtain ⟨after, hafter, hfields⟩ := hkept
    refine ⟨after.live, ?_, ?_⟩
    · rw [hafter]
      cases after
      simp_all
    · rw [(hm.reachable.balanced t after hafter).1, (hr.balanced t before hbefore).1]
      exact hm.population_add t

/-- **What giving up a handle comes to.** The destructors that run, never more than two at a time, come
to an end, and then the heap is the one that plain counting by recursion leaves: what is no more has
ended once and has been taken off the account of its own tracker, and what is left has lost the handles
that were given up and nothing else. -/
theorem teardown_exact (hr : h.Reachable (x :: held)) :
    (∀ n, (Teardown.step^[n] (.start x h)).running.length ≤ 2)
      ∧ ∃ n, TornDown x h (Teardown.step^[n] (.start x h)) := by
  obtain ⟨n, hn⟩ := Teardown.exists_iterate_step (.start x h)
  exact ⟨Teardown.length_running_le x h, n,
    ((Teardown.carries_start hr).iterate n).tornDown hr hn⟩

/-- An array that holds a struct, and beside it the empty struct of another tracker that the first one
holds twice. -/
def entwined : Heap :=
  ((((((Heap.empty.openTracker 2).2.openTracker 1).2).enroll 1 #[]).share 2 (.struct 0)).enroll 0
    #[.struct 0, .struct 0]).enroll 0 #[.struct 1, .struct 0]

theorem reachable_entwined : Reachable entwined [.array 2] := by
  have htrackers : Reachable ((Heap.empty.openTracker 2).2.openTracker 1).2
      ((#[] : Array Item).toList ++ []) := .openTracker (.openTracker .empty 2) 1
  have hinner : Reachable (((Heap.empty.openTracker 2).2.openTracker 1).2.enroll 1 #[])
      [.struct 0] := htrackers.enroll rfl (by decide) .struct
  have hshared : Reachable ((((Heap.empty.openTracker 2).2.openTracker 1).2.enroll 1 #[]).share 2
      (.struct 0)) (#[Item.struct 0, .struct 0].toList ++ [.struct 0]) :=
    hinner.share (.inl List.mem_cons_self) 2
  have hmiddle := hshared.enroll (t := 0) rfl (by decide) .struct
  have houter : Reachable _ (#[Item.struct 1, .struct 0].toList ++ []) := hmiddle
  exact houter.enroll (t := 0) rfl (by decide) .array

/-- The last of three handles to the empty struct goes when its holders have ended. -/
theorem teardown_entwined : Reachable entwined [.array 2]
    ∧ ((∀ n, (Teardown.step^[n] (.start (.array 2) entwined)).running.length ≤ 2)
      ∧ ∃ n, TornDown (.array 2) entwined (Teardown.step^[n] (.start (.array 2) entwined)))
    ∧ (Teardown.step^[7] (.start (.array 2) entwined)).ended = [(0, 1), (1, 0), (2, 0)] :=
  ⟨reachable_entwined, teardown_exact reachable_entwined, by cbv⟩

end Heap

end BoundedVm
