import BoundedVm.Proofs.Clone.Budget
import BoundedVm.Proofs.Heap.Reachable

/-! # Which clones are accepted

The two limits of a bounded clone, read off what a clone costs: the stack size bounds the elements in
the unfolding of the struct, and the tracker of the struct bounds the copies. -/

namespace BoundedVm

namespace Heap

variable {h : Heap} {held : List Item} {s : ContainerId} {limits : Limits}

/-- Whether a path through structs leads from a struct to one from which a path leads back to it. -/
def ReachesCycle (h : Heap) (s : ContainerId) : Prop :=
  ∃ path round d, h.itemAt? (.struct s) path = some (.struct d) ∧ round ≠ [] ∧
    h.itemAt? (.struct d) round = some (.struct d)

/-- The unfolding of a struct that reaches a cycle is infinite. -/
theorem ReachesCycle.counts_eq_top (hs : h.ReachesCycle s) :
    h.elementCount s = ⊤ ∧ h.structCount s = ⊤ := by
  obtain ⟨path, round, d, hpath, hne, hround⟩ := hs
  exact ⟨countBelow_eq_top_of_cycle hpath hne hround trivial,
    countBelow_eq_top_of_cycle hpath hne hround rfl⟩

/-- **Which clones are accepted.** On every reachable heap a clone visits at most as many elements as
the stack size says. It is accepted exactly if the unfolding of the struct has fewer elements than the
stack size and the tracker has room for a copy of the struct and of every struct in the unfolding, and
else it is refused for lack of one of them. After it the account of the tracker shows the copies. -/
theorem cloneStruct_isOk_iff (hr : h.Reachable held) (hs : h.alive s = true)
    (hl : limits.validate = .ok limits) :
    (h.cloneStructCounted s limits).1 = h.cloneStruct s limits ∧
    (h.cloneStructCounted s limits).2 ≤ limits.maxStackSize.toNat ∧
    (h.ReachesCycle s → h.elementCount s = ⊤ ∧ h.structCount s = ⊤) ∧
    ∃ account, h.tracker? (h.owner s) = some account ∧
      ((∃ c, (h.cloneStruct s limits).1 = .ok c) ↔
        h.elementCount s + 1 ≤ limits.maxStackSize.toNat ∧
          account.live + 1 + h.structCount s ≤ account.limit) ∧
      (∀ e, (h.cloneStruct s limits).1 = .error e → e.isResourceLimit = true) ∧
      ∀ c, (h.cloneStruct s limits).1 = .ok c →
        ∃ after, (h.cloneStruct s limits).2.tracker? (h.owner s) = some after ∧
          after.live = account.live + 1 + h.structCount s ∧
          after.peak = max account.peak after.live ∧ after.limit = account.limit := by
  obtain ⟨hcounted, hvisits⟩ := h.cloneStructCounted_spec s hl
  obtain ⟨account, ht⟩ := hr.wellFormed.exists_tracker? hs
  refine ⟨hcounted, hvisits, ReachesCycle.counts_eq_top, account, ht, ?_⟩
  have hcost := cloneStruct_charged hr.wellFormed (lt_created_of_alive hs) hl ht
  rw [add_comm 1, add_comm 1] at hcost
  have hassoc : (account.live : ℕ∞) + (h.structCount s + 1) = account.live + 1 + h.structCount s := by
    rw [add_comm _ (1 : ℕ∞), add_assoc]
  -- both directions are read off the one outcome that there is
  generalize h.cloneStruct s limits = outcome at hcost ⊢
  obtain ⟨result, after⟩ := outcome
  cases result with
  | error e =>
    obtain ⟨hresource, hrefused⟩ := hcost
    rw [hassoc] at hrefused
    refine ⟨⟨?_, fun hboth => absurd hboth hrefused⟩, ?_, ?_⟩
    · rintro ⟨c, hc⟩
      cases hc
    · intro e' he
      cases he
      exact hresource
    · intro c hc
      cases hc
  | ok c =>
    obtain ⟨hvisits, n, registry, hcopies, hlimit, haccount⟩ := hcost
    have hlive : account.live + 1 + h.structCount s = ((account.live + n : Nat) : ℕ∞) := by
      rw [← hassoc, hcopies, Nat.cast_add]
    refine ⟨⟨fun _ => ⟨hvisits, ?_⟩, fun _ => ⟨c, rfl⟩⟩, ?_, ?_⟩
    · rw [hlive]
      exact_mod_cast hlimit
    · intro e he
      cases he
    · intro _ _
      exact ⟨_, haccount, hlive.symm, rfl, rfl⟩

/-- A struct that holds an empty struct twice, on a tracker that has room for three more. -/
def twins : Heap :=
  (((empty.openTracker 5).2.enroll 0 #[]).share 1 (.struct 0)).enroll 0 #[.struct 0, .struct 0]

theorem twins_reachable : twins.Reachable [.struct 1] := by
  have hempty : Reachable (empty.openTracker 5).2 ((#[] : Array Item).toList ++ []) :=
    Reachable.empty.openTracker 5
  have hfirst : (empty.openTracker 5).2.tracker? 0 = some ⟨5, 0, 0, #[]⟩ := rfl
  have hinner := hempty.enroll hfirst (by decide) .struct
  have hboth : Reachable (((empty.openTracker 5).2.enroll 0 #[]).share 1 (.struct 0))
      ((#[.struct 0, .struct 0] : Array Item).toList ++ []) :=
    hinner.share (.inl List.mem_cons_self) 1
  have hsecond : (((empty.openTracker 5).2.enroll 0 #[]).share 1 (.struct 0)).tracker? 0
      = some ⟨5, 1, 1, #[0]⟩ := rfl
  exact hboth.enroll hsecond (by decide) .struct

theorem cloneStruct_isOk_iff_twins :
    twins.Reachable [.struct 1] ∧ twins.alive 1 = true ∧
      Limits.validate ⟨3, 1⟩ = .ok ⟨3, 1⟩ ∧ twins.elementCount 1 + 1 ≤ (3 : Nat) := by
  have halive : twins.alive 1 = true := by decide
  have hl : Limits.validate ⟨3, 1⟩ = .ok ⟨3, 1⟩ := by decide
  have hclone : (twins.cloneStruct 1 ⟨3, 1⟩).1 = .ok 2 := by cbv
  obtain ⟨-, -, -, account, -, haccepted, -, -⟩ := cloneStruct_isOk_iff twins_reachable halive hl
  exact ⟨twins_reachable, halive, hl, (haccepted.mp ⟨2, hclone⟩).1⟩

end Heap

end BoundedVm
