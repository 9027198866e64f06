import BoundedVm.Proofs.Clone.Refusal

/-! # Refused operations

An operation that is refused has taken over some handles, or made some, or made containers; all of this
is undone. What is left are the containers that there were, but for those that end with the handles that
the operation was given: a refused creation gives up what the container was to hold, and a refused `set`
the element that was to be stored.

* `Heap.Call`: the operations that may be refused.
* `Heap.Unwound`: what a refused call leaves.
* `Call.unwinds`, `Call.peak_eq`: the containers and the peaks after a refused call.
* `unwound_of_run_eq_error`: every refused call on a reachable heap leaves this. -/

namespace BoundedVm

namespace Heap

/-- An operation that may be refused, with what it is called with. -/
inductive Call where
  | create (kind : Compound) (t : TrackerId) (items : Array Item)
  | toArray (s : ContainerId)
  | convert (x : Item) (target : Kind)
  | clone (s : ContainerId) (limits : Limits)
  | get (c : ContainerId) (index : Nat)
  | set (c : ContainerId) (index : Nat) (x : Item)
  | remove (c : ContainerId) (index : Nat)

namespace Call

/-- The handles that a call takes over. -/
def given : Call → List Item
  | create _ _ items => items.toList
  | set _ _ x => [x]
  | _ => []

/-- The containers on which a call is made; the caller keeps its handles to them. -/
def subjects : Call → List ContainerId
  | create _ _ _ => []
  | toArray c | clone c _ | get c _ | set c _ _ | remove c _ => [c]
  | convert x _ => x.container?.toList

/-- The outcome of an operation with the handles that it hands over. -/
def handOver {α : Type} (gives : α → List Item) (outcome : Except ValueFault α × Heap) :
    Except ValueFault (List Item) × Heap :=
  (outcome.1.map gives, outcome.2)

/-- Carries out a call. -/
def run (h : Heap) : Call → Except ValueFault (List Item) × Heap
  | create kind t items => handOver (fun c => [kind.item c]) (h.create t items)
  | toArray s => handOver (fun c => [.array c]) (h.toArray s)
  | convert x target => handOver (fun y => [y]) (h.convert x target)
  | clone s limits => handOver (fun c => [.struct c]) (h.cloneStruct s limits)
  | get c index => handOver (fun y => [y]) (h.get c index)
  | set c index x => handOver (fun _ => []) (h.set c index x)
  | remove c index => handOver (fun y => [y]) (h.remove c index)

end Call

/-- What a refused call leaves of a heap, with the handles `held` outside that were not given to it. -/
structure Unwound (call : Call) (held : List Item) (h h' : Heap) : Prop where
  /-- The handles that were given have been given up, and no other ones are held outside. -/
  reachable : h'.Reachable held
  /-- No container is new, and those have ended all of whose handles were given or kept by containers
  that have ended too. -/
  alive_iff : ∀ c, h'.alive c = true ↔ h.alive c = true ∧ ¬ h.Freed held c
  items_eq : ∀ c, h'.alive c = true → h'.items c = h.items c
  owner_eq : ∀ c, h'.alive c = true → h'.owner c = h.owner c
  account : ∀ t before, h.tracker? t = some before → ∃ after, h'.tracker? t = some after ∧
    after.limit = before.limit ∧
    (after.live : ℕ∞) + {c | h.Freed held c ∧ h.owner c = t}.encard = before.live ∧
    (call.given = [] → after.live = before.live) ∧
    before.peak ≤ after.peak ∧ after.peak ≤ after.limit ∧
    ((∀ s limits, call ≠ .clone s limits) → after.peak = before.peak)

variable {h h' : Heap} {held xs : List Item} {c : ContainerId} {t : TrackerId} {e : ValueFault}

/-! ## What a refused call does -/

namespace Call

variable {call : Call}

theorem handOver_eq_error_iff {α : Type} {gives : α → List Item}
    {outcome : Except ValueFault α × Heap} :
    handOver gives outcome = (.error e, h') ↔ outcome = (.error e, h') := by
  obtain ⟨result, after⟩ := outcome
  cases result with
  | ok a => simp [handOver, Except.map]
  | error e => simp [handOver, Except.map]

/-- The handles to the elements of a struct are made and given up again. -/
def shareAndRelease (s : ContainerId) (h : Heap) : Heap :=
  (h.shareAll (h.items s).toList).release (h.items s).toList

theorem eq_of_toArray_eq_error {s : ContainerId} (hc : h.toArray s = (.error e, h')) :
    h' = shareAndRelease s h :=
  eq_of_create_eq_error hc

/-- A refused conversion has done nothing, unless it was one to an array. -/
theorem eq_of_convert_eq_error {x : Item} {target : Kind} (hc : h.convert x target = (.error e, h')) :
    h' = h ∨ ∃ s, h' = shareAndRelease s h := by
  unfold Heap.convert at hc
  split at hc
  · cases hc
  · split at hc
    · cases hc
    · cases hc
    · cases hc
    · cases hc
    · exact .inl (Prod.mk.inj hc).2.symm
    · split at hc <;> cases hc
      exact .inl rfl
    · cases hc
    · split at hc
      · cases hc
      · rename_i hout
        cases hc
        exact .inr ⟨_, eq_of_toArray_eq_error hout⟩
    · cases hc
      exact .inl rfl

/-- **What a refused call does.** It gives up what it was given; the making of an array gives up the
handles that it has made; and a clone ends as it does. -/
theorem cases_of_run_eq_error (hrun : call.run h = (.error e, h')) :
    ((∀ s limits, call ≠ .clone s limits) ∧ h' = h.release call.given) ∨
      ((∀ s limits, call ≠ .clone s limits) ∧ call.given = [] ∧ ∃ s, h' = shareAndRelease s h) ∨
      ∃ s limits, call = .clone s limits ∧ h.cloneStruct s limits = (.error e, h') := by
  cases call with
  | create kind t items =>
    exact .inl ⟨by simp, eq_of_create_eq_error (handOver_eq_error_iff.1 hrun)⟩
  | toArray s =>
    exact .inr (.inl ⟨by simp, rfl, s, eq_of_toArray_eq_error (handOver_eq_error_iff.1 hrun)⟩)
  | convert x target =>
    rcases eq_of_convert_eq_error (handOver_eq_error_iff.1 hrun) with rfl | hmade
    · exact .inl ⟨by simp, (release_nil _).symm⟩
    · exact .inr (.inl ⟨by simp, rfl, hmade⟩)
  | clone s limits => exact .inr (.inr ⟨s, limits, rfl, handOver_eq_error_iff.1 hrun⟩)
  | get c index =>
    have hget : h.get c index = (.error e, h') := handOver_eq_error_iff.1 hrun
    unfold Heap.get at hget
    split at hget <;> cases hget
    exact .inl ⟨by simp, (release_nil _).symm⟩
  | set c index x =>
    have hset : h.set c index x = (.error e, h') := handOver_eq_error_iff.1 hrun
    unfold Heap.set at hset
    split at hset <;> cases hset
    exact .inl ⟨by simp, rfl⟩
  | remove c index =>
    have hremove : h.remove c index = (.error e, h') := handOver_eq_error_iff.1 hrun
    unfold Heap.remove at hremove
    split at hremove <;> cases hremove
    exact .inl ⟨by simp, (release_nil _).symm⟩

/-! ## What is kept -/

theorem kept_shareAndRelease {may : Effect → Prop} {P : Heap → List Item → Prop}
    (hP : Invariant may P) (hr : P h held) (s : ContainerId) : P (shareAndRelease s h) held :=
  hP.release (hP.shareAll hr fun _ hx => .inr ⟨s, Array.mem_toList_iff.mp hx⟩)

/-- What operations keep is kept by a refused call, which hands nothing over. -/
theorem kept_of_run_eq_error {may : Effect → Prop} {P : Heap → List Item → Prop}
    (hP : Invariant may P) (hmay : may .store) (hr : P h (call.given ++ held))
    (hsubjects : ∀ c ∈ call.subjects, h.alive c = true) (hrun : call.run h = (.error e, h')) :
    P h' held := by
  rcases cases_of_run_eq_error hrun with ⟨-, rfl⟩ | ⟨-, hnone, s, rfl⟩ | ⟨s, limits, rfl, hclone⟩
  · exact hP.release hr
  · rw [hnone] at hr
    exact kept_shareAndRelease hP hr s
  · have hs : h.alive s = true := hsubjects s (by simp [subjects])
    have hleaves := hP.cloneStruct hmay hr hs limits
    rwa [hclone] at hleaves

/-- The containers after a refused call are those that are not freed, with what they held. -/
theorem view_of_run_eq_error (ha : h.Accounted (call.given ++ held))
    (hsubjects : ∀ c ∈ call.subjects, h.alive c = true) (hrun : call.run h = (.error e, h'))
    (c : ContainerId) :
    (h'.alive c = true ↔ h.alive c = true ∧ ¬ h.Freed held c) ∧
      (h'.alive c = true → h'.items c = h.items c) := by
  rcases cases_of_run_eq_error hrun with ⟨-, rfl⟩ | ⟨-, hnone, s, rfl⟩ | ⟨s, limits, rfl, hclone⟩
  · exact ⟨alive_release_iff ha c, fun hc => (eq_of_alive_release hc).2.2⟩
  · -- the handles that are given up are the ones that were made
    rw [hnone] at ha
    have hshared : (h.shareAll (h.items s).toList).Accounted ((h.items s).toList ++ held) :=
      (invariant_leads (fun _ => True) ha).shareAll (h := h) ⟨[], .refl⟩
        (fun _ hx => .inr ⟨s, Array.mem_toList_iff.mp hx⟩) |>.accounted ha
    have halive := alive_release_iff hshared c
    rw [freed_congr (alive_shareAll _) (items_shareAll _), alive_shareAll] at halive
    exact ⟨halive, fun hc => (eq_of_alive_release hc).2.2.trans (items_shareAll _ c)⟩
  · have hs : h.alive s = true := hsubjects s (by simp [subjects])
    obtain ⟨halive, hitems⟩ := eq_of_cloneStruct_eq_error ha hs hclone c
    have hkeep : ¬ h.Freed held c := not_freed_of_accounted ha c
    rw [halive, and_iff_left hkeep]
    exact ⟨Iff.rfl, fun _ => hitems⟩

/-- No call that is refused has made a container, clones apart. -/
theorem peak_eq_of_run_eq_error (hclone : ∀ s limits, call ≠ .clone s limits)
    (hrun : call.run h = (.error e, h')) (t : TrackerId) :
    (h'.tracker? t).map Tracker.peak = (h.tracker? t).map Tracker.peak := by
  rcases cases_of_run_eq_error hrun with ⟨-, rfl⟩ | ⟨-, -, s, rfl⟩ | ⟨s, limits, rfl, -⟩
  · exact map_tracker?_release (fun _ => rfl) _ t
  · rw [shareAndRelease, map_tracker?_release (fun _ => rfl), tracker?_shareAll]
  · exact absurd rfl (hclone s limits)

end Call

/-! ## The accounts -/

theorem Reachable.balanced (hr : Reachable h held) (t : TrackerId) : h.Balanced t := by
  obtain ⟨past, hpast⟩ := hr.of_invariant (invariant_leads (fun _ => True) accounted_empty)
    ⟨[], .refl⟩
  exact hpast.balanced t

/-- Where the containers left are those that are not freed, the account shows what was freed. -/
theorem live_add_encard (hb : h.Balanced t) (hb' : h'.Balanced t)
    (halive : ∀ c, h'.alive c = true ↔ h.alive c = true ∧ ¬ h.Freed held c)
    (howner : ∀ c, h'.alive c = true → h'.owner c = h.owner c) {before after : Tracker}
    (hbefore : h.tracker? t = some before) (hafter : h'.tracker? t = some after) :
    (after.live : ℕ∞) + {c | h.Freed held c ∧ h.owner c = t}.encard = before.live := by
  have hsplit : {c | h.alive c = true ∧ h.owner c = t}
      = {c | h'.alive c = true ∧ h'.owner c = t} ∪ {c | h.Freed held c ∧ h.owner c = t} := by
    ext c
    simp only [Set.mem_ofPred_eq, Set.mem_union]
    constructor
    · rintro ⟨hc, hct⟩
      by_cases hfreed : h.Freed held c
      · exact .inr ⟨hfreed, hct⟩
      · have hleft := (halive c).mpr ⟨hc, hfreed⟩
        exact .inl ⟨hleft, (howner c hleft).trans hct⟩
    · rintro (⟨hc, hct⟩ | ⟨hc, hct⟩)
      · exact ⟨((halive c).mp hc).1, (howner c hc).symm.trans hct⟩
      · exact ⟨hc.alive, hct⟩
  have hdisjoint : Disjoint {c | h'.alive c = true ∧ h'.owner c = t}
      {c | h.Freed held c ∧ h.owner c = t} :=
    Set.disjoint_left.mpr fun c hc hfreed => ((halive c).mp hc.1).2 hfreed.1
  rw [(hb before hbefore).1, (hb' after hafter).1, population_eq_encard, population_eq_encard,
    ← Set.encard_union_eq hdisjoint, ← hsplit]

/-- **A refused call leaves no trace.** Whatever the heap and wherever the call is refused, no container
is new and what is left of the others holds what it held. Those that end are the ones whose last handles
were given to the call, and each account shows its own; a call that is given no handles changes no
count. The peaks stay too, except that a clone raises the peak of its tracker within the limit. -/
theorem unwound_of_run_eq_error {call : Call} (hr : Reachable h (call.given ++ held))
    (hsubjects : ∀ c ∈ call.subjects, h.alive c = true) (hrun : call.run h = (.error e, h')) :
    Unwound call held h h' := by
  have ha := hr.accounted
  have hview := Call.view_of_run_eq_error ha hsubjects hrun
  have hafter : Reachable h' held :=
    Call.kept_of_run_eq_error invariant_reachable trivial hr hsubjects hrun
  have hsteps : Leads (fun _ => True) ⟨h, call.given ++ held⟩ h' held :=
    Call.kept_of_run_eq_error (invariant_leads _ ha) trivial ⟨[], .refl⟩ hsubjects hrun
  obtain ⟨past, hsteps⟩ := hsteps
  have howner : ∀ c, h'.alive c = true → h'.owner c = h.owner c := fun c hc =>
    (hsteps.lasting (lt_created_of_alive ((hview c).1.mp hc).1) hc).2.symm
  refine ⟨hafter, fun c => (hview c).1, fun c => (hview c).2, howner, fun t before hbefore => ?_⟩
  obtain ⟨after, ht, hlimit⟩ := hsteps.limit_eq ha hbefore
  have hlive := live_add_encard (hr.balanced t) (hafter.balanced t) (fun c => (hview c).1) howner
    hbefore ht
  refine ⟨after, ht, hlimit, hlive, fun hnone => ?_, hsteps.peak_le ha hbefore ht,
    (hafter.balanced t after ht).2.2, fun hclone => ?_⟩
  · -- nothing is freed
    rw [hnone] at ha
    have hempty : {c | h.Freed held c ∧ h.owner c = t} = ∅ :=
      Set.eq_empty_iff_forall_notMem.mpr fun c hc => not_freed_of_accounted ha c hc.1
    rw [hempty, Set.encard_empty, add_zero] at hlive
    exact_mod_cast hlive
  · have hpeak := Call.peak_eq_of_run_eq_error hclone hrun t
    rw [hbefore, ht] at hpeak
    exact Option.some.inj hpeak

/-- A struct in a struct, with a tracker for one more, and a tracker for none. -/
def nested : Heap :=
  ((((Heap.empty.openTracker 3).2.openTracker 0).2).enroll 0 #[]).enroll 0 #[.struct 0]

theorem reachable_nested : Reachable nested [.struct 1] := by
  have htrackers : Reachable ((Heap.empty.openTracker 3).2.openTracker 0).2
      ((#[] : Array Item).toList ++ []) := .openTracker (.openTracker .empty 3) 0
  have hinner : Reachable (((Heap.empty.openTracker 3).2.openTracker 0).2.enroll 0 #[])
      (#[Item.struct 0].toList ++ []) := htrackers.enroll rfl (by decide) .struct
  exact hinner.enroll rfl (by decide) .struct

/-- A creation that is given the only handle to the outer struct is refused, and both structs end; the
clone of the outer struct is refused when its first copy has been made, which shows in the peak. -/
theorem unwound_nested :
    (Call.run nested (.create .array 1 #[.struct 1])).1 = .error (.tooManyContainers 0) ∧
      Unwound (.create .array 1 #[.struct 1]) [] nested
        (Call.run nested (.create .array 1 #[.struct 1])).2 ∧
      (Call.run nested (.create .array 1 #[.struct 1])).2.tracker? 0 = some ⟨3, 0, 2, #[0, 1]⟩ ∧
      (Call.run nested (.clone 1 ⟨1, 1⟩)).1 = .error .cloneTooLarge ∧
      Unwound (.clone 1 ⟨1, 1⟩) [.struct 1] nested (Call.run nested (.clone 1 ⟨1, 1⟩)).2 ∧
      (Call.run nested (.clone 1 ⟨1, 1⟩)).2.tracker? 0 = some ⟨3, 2, 3, #[0, 1, 2]⟩ := by
  have hcreate : (Call.run nested (.create .array 1 #[.struct 1])).1
      = .error (.tooManyContainers 0) := by cbv
  have hclone : (Call.run nested (.clone 1 ⟨1, 1⟩)).1 = .error .cloneTooLarge := by cbv
  refine ⟨hcreate, ?_, by cbv, hclone, ?_, by cbv⟩
  · exact unwound_of_run_eq_error reachable_nested (by decide) (Prod.ext hcreate rfl)
  · exact unwound_of_run_eq_error reachable_nested (by decide) (Prod.ext hclone rfl)

end Heap

end BoundedVm
