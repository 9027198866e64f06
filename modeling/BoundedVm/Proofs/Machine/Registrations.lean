import BoundedVm.Proofs.Heap.Compaction
import BoundedVm.Proofs.Machine.Reclaim

/-! # The registries of a machine

The registries are kept at every moment of every history, in the middle of a request too. After a
request the registry of a tracker lists each of its containers that exist and were made since the last
discard, once.

* `Machine.count_entries_reached`: how often a container that exists is registered.
* `Machine.run_registers`: what the registries list at every moment and after every request. -/

namespace BoundedVm

namespace Machine

/-- A container that exists is registered once with its tracker if it was made since the last discard,
and else not at all. -/
theorem count_entries_reached (requests : List Request) (t : TrackerId) {c : ContainerId}
    (hc : (reached requests).heap.alive c = true) :
    ((reached requests).heap.entries t).count c
      = if (reached requests).heap.owner c = t ∧ lastDiscard t requests ≤ c then 1 else 0 := by
  obtain ⟨past, hrun⟩ := exists_run requests
  have honce : (reached requests).heap.RegistersOnce t := hrun.steps.registersOnce t
  have hlists := (registeredFrom_reached t requests).lists_iff c hc
  rw [← Heap.mem_entries_iff] at hlists
  rw [honce.nodup.count, if_congr hlists rfl rfl]

/-- **What is registered.** Every list of requests has a history. At each moment of every history of it a
registry lists no container twice and none of another tracker, whether it exists or has ended, and its
length is at most twice the peak and 64 more; a creation that is accepted registers the container, after a
compaction that removes no entry of a container that exists, and one that is refused registers nothing.
After the requests the registry of a tracker has one entry for each of its containers that exist and were
made since its last discard, and no others for containers that exist. -/
theorem run_registers (requests : List Request) :
    (∃ past, Run requests past) ∧
      (∀ past, Run requests past → ∀ later now earlier,
        (reached requests).moment :: past = later ++ now :: earlier → now.Registers earlier) ∧
      ∀ t c, (reached requests).heap.alive c = true →
        ((reached requests).heap.entries t).count c
          = if (reached requests).heap.owner c = t ∧ lastDiscard t requests ≤ c then 1 else 0 := by
  refine ⟨exists_run requests, fun past hr later now earlier hnow => ?_, fun t c => ?_⟩
  · exact (hr.steps.upto hnow).registers
  · exact count_entries_reached requests t

/-- The entry of a struct that has ended stays until a discard, and one of a struct that exists goes there
too. -/
example : (reached [⟨"s", some "x", none, .create .struct []⟩, ⟨"s", none, none, .drop "x"⟩,
      ⟨"s", some "x", none, .create .struct []⟩, ⟨"s", none, none, .openTracker 9⟩]).heap.entries 0
        = [0, 1] ∧
    (reached [⟨"s", some "y", none, .create .struct []⟩, ⟨"s", none, none, .discard⟩,
      ⟨"s", some "x", none, .create .struct []⟩, ⟨"s", none, none, .openTracker 9⟩]).heap.entries 0
        = [1] := by
  constructor <;> cbv

end Machine

end BoundedVm
