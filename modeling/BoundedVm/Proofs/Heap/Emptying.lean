import BoundedVm.Proofs.Heap.Refusal
import BoundedVm.Proofs.Heap.Registry

/-! # What one discard does

A discard empties the containers that it finds before it gives up any handle, so that none of them holds
another one any more when the counting of handles begins. What ends then is what is freed in the heap
with these containers emptied, and nothing but their items and the counts of what has ended is changed.

* `Heap.emptied`: the heap with some containers emptied.
* `Heap.Discarded`: what a discard leaves of a heap, said without the order in which it proceeds.
* `discarded_of_registered`: every discard leaves this. -/

namespace BoundedVm

namespace Heap

variable {h : Heap} {held : List Item} {t : TrackerId}

/-! ## Emptied containers -/

section Emptied

variable (S : ContainerId → Prop) [DecidablePred S]

/-- The heap with the containers of a set emptied, while nothing else is changed. -/
def emptied (h : Heap) : Heap :=
  { h with
    containers := h.containers.mapIdx fun c place =>
      if S c then place.map (fun k => { k with items := #[] }) else place }

theorem container?_emptied (c : ContainerId) : (h.emptied S).container? c
    = if S c then (h.container? c).map (fun k => { k with items := #[] }) else h.container? c := by
  simp only [emptied, container?, Array.getElem?_mapIdx]
  cases h.containers[c]? with
  | none => simp
  | some place => cases place <;> by_cases hc : S c <;> simp [hc]

@[simp] theorem alive_emptied (c : ContainerId) : (h.emptied S).alive c = h.alive c := by
  rw [alive_eq_isSome, container?_emptied, alive_eq_isSome]
  split <;> simp

@[simp] theorem owner_emptied (c : ContainerId) : (h.emptied S).owner c = h.owner c := by
  rw [owner_eq_getD, container?_emptied, owner_eq_getD]
  split
  · cases h.container? c <;> rfl
  · rfl

theorem items_emptied (c : ContainerId) :
    (h.emptied S).items c = if S c then #[] else h.items c := by
  rw [items_eq_getD, container?_emptied, items_eq_getD]
  split
  · cases h.container? c <;> rfl
  · rfl

/-- A tracker owns as many containers as before. -/
theorem population_emptied (t : TrackerId) : (h.emptied S).population t = h.population t := by
  have hsame : {c | (h.emptied S).alive c = true ∧ (h.emptied S).owner c = t}
      = {c | h.alive c = true ∧ h.owner c = t} := by
    simp only [alive_emptied, owner_emptied]
  have hcount := population_eq_encard (h.emptied S) t
  rw [hsame, ← population_eq_encard] at hcount
  exact_mod_cast hcount

theorem Balanced.emptied (hb : h.Balanced t) : (h.emptied S).Balanced t := by
  intro account ht
  rw [population_emptied]
  exact hb account ht

end Emptied

/-! ## What a discard leaves -/

/-- What a discard that empties the containers of a set leaves of a heap, with the handles `held`
outside. -/
structure Discarded (S : ContainerId → Prop) [DecidablePred S] (held : List Item) (h h' : Heap) :
    Prop where
  /-- Those containers have ended, and no others, that are freed once those of the set are emptied. -/
  alive_iff : ∀ c, h'.alive c = true ↔ h.alive c = true ∧ ¬ (h.emptied S).Freed held c
  /-- Containers of the set do not keep one another in existence. -/
  not_alive : ∀ c, S c → (∀ x ∈ held, x.container? ≠ some c) →
    (∀ d, ¬ S d → ∀ x ∈ h.items d, x.container? ≠ some c) → h'.alive c = false
  items_eq : ∀ c, h'.alive c = true → h'.items c = if S c then #[] else h.items c
  owner_eq : ∀ c, h'.alive c = true → h'.owner c = h.owner c
  /-- Each account loses the containers of its own that have ended, and nothing else. -/
  account : ∀ u before, h.tracker? u = some before → ∃ after, h'.tracker? u = some after ∧
    after.limit = before.limit ∧ after.peak = before.peak ∧
    (after.live : ℕ∞) + {c | (h.emptied S).Freed held c ∧ h.owner c = u}.encard = before.live

/-- The containers found have been emptied and their handles are held outside. -/
theorem Accounted.takeAll (ha : h.Accounted held) {found : List ContainerId}
    (hfound : ∀ c ∈ found, h.alive c = true) :
    (takeAll found [] h).2.Accounted ((takeAll found [] h).1 ++ held) := by
  have hstart : Leads (fun _ => True) ⟨h, held⟩ h ([] ++ held) := ⟨[], .refl⟩
  exact (hstart.takeAll hfound).accounted ha

/-- **What ends.** A discard ends the containers that are freed in the heap in which those that it finds
are emptied. -/
theorem alive_discard_iff (ha : h.Accounted held) {S : ContainerId → Prop} [DecidablePred S]
    (hS : ∀ c, c ∈ h.registered t ↔ S c) (c : ContainerId) :
    (h.discard t).2.alive c = true ↔ h.alive c = true ∧ ¬ (h.emptied S).Freed held c := by
  have hfound : ∀ d ∈ h.registered t, (h.forget t).alive d = true :=
    fun d hd => (alive_adjust t _ d).trans (alive_of_mem_registered hd)
  have htaken : (takeAll (h.registered t) [] (h.forget t)).2.Accounted
      ((takeAll (h.registered t) [] (h.forget t)).1 ++ held) :=
    Accounted.takeAll (ha.adjust t fun account => { account with registry := #[] }) hfound
  have halive : ∀ d, (takeAll (h.registered t) [] (h.forget t)).2.alive d = h.alive d :=
    fun d => (eq_of_takeAll hfound []).1.trans (alive_adjust t _ d)
  have hitems : ∀ d, (takeAll (h.registered t) [] (h.forget t)).2.items d
      = (h.emptied S).items d := by
    intro d
    rw [(eq_of_takeAll hfound []).2.2, items_emptied]
    exact if_congr (hS d) rfl rfl
  have hrelease := alive_release_iff htaken c
  rw [halive, freed_congr (fun d => (halive d).trans (alive_emptied S d).symm) hitems] at hrelease
  exact hrelease

/-- What of an account does not depend on its count and its registry stays. -/
theorem map_tracker?_discard {β : Type} {f : Tracker → β} (hcount : ∀ a, f a.unregister = f a)
    (hregistry : ∀ a : Tracker, f { a with registry := #[] } = f a) (u : TrackerId) :
    ((h.discard t).2.tracker? u).map f = (h.tracker? u).map f := by
  show (((takeAll (h.registered t) [] (h.forget t)).2.release _).tracker? u).map f = _
  rw [map_tracker?_release hcount, tracker?_takeAll, forget, tracker?_adjust]
  by_cases htu : t = u
  · rw [if_pos htu, htu, Option.map_map]
    exact congrArg (Option.map · _) (funext hregistry)
  · rw [if_neg htu]

/-- **What a discard leaves.** It empties the containers that it finds and ends those that are freed
then, and of the accounts only the counts change. -/
theorem discarded_of_registered (hr : Reachable h held) {S : ContainerId → Prop} [DecidablePred S]
    (hS : ∀ c, c ∈ h.registered t ↔ S c) : Discarded S held h (h.discard t).2 := by
  have halive := alive_discard_iff hr.accounted hS
  have howner : ∀ c, (h.discard t).2.alive c = true → (h.discard t).2.owner c = h.owner c :=
    fun c hc => (items_discard hc).2.1
  refine ⟨halive, fun c hc houtside helsewhere => ?_, fun c hc => ?_, howner,
    fun u before hbefore => ?_⟩
  · rw [← Bool.not_eq_true, halive, not_and_not_right]
    intro hbefore
    refine .intro ((alive_emptied S c).trans hbefore) houtside fun d x hx hxc => ?_
    -- an emptied container holds nothing
    rw [items_emptied] at hx
    by_cases hd : S d
    · rw [if_pos hd] at hx
      simp at hx
    · rw [if_neg hd] at hx
      exact absurd hxc (helsewhere d hd x hx)
  · exact (items_discard hc).2.2.trans (if_congr (hS c) rfl rfl)
  · have hkept := map_tracker?_discard (h := h) (t := t) (f := fun a => (a.limit, a.peak))
      (fun _ => rfl) (fun _ => rfl) u
    rw [hbefore, Option.map_some, Option.map_eq_some_iff] at hkept
    obtain ⟨after, hafter, heq⟩ := hkept
    have hlive := live_add_encard ((hr.balanced u).emptied S) ((hr.discard t).balanced u)
      (fun c => by rw [halive, alive_emptied]) (fun c hc => (howner c hc).trans (owner_emptied S c).symm)
      hbefore hafter
    simp only [owner_emptied] at hlive
    exact ⟨after, hafter, congrArg Prod.fst heq, congrArg Prod.snd heq, hlive⟩

end Heap

end BoundedVm
