import BoundedVm.Proofs.Heap.Accounts
import BoundedVm.Proofs.Machine.Reachable

/-! # The accounts of a machine

A history of a machine is a list of requests, and between two of them the heap goes through steps, also
when a request is refused in the middle. The accounts of all trackers are balanced at every moment of
every history.

* `Machine.reached`: the machine after some requests.
* `Machine.Run`: the moments that the heap goes through.
* `Machine.run_balances`: every moment is balanced. -/

namespace BoundedVm

namespace Machine

/-- The machine after some requests to the empty one, the latest first. -/
def reached : List Request → Machine
  | [] => .empty
  | r :: earlier => (reached earlier).after r

/-- The heap of a machine, with the handles in the slots. -/
def moment (m : Machine) : Heap.Moment := ⟨m.heap, m.handles⟩

/-- The moments before the end of some requests, the latest first: each request takes the heap from the
end of the one before to its own by steps that have no other effects than the request. -/
inductive Run : List Request → List Heap.Moment → Prop
  | nil : Run [] []
  | cons {earlier : List Request} {past new : List Heap.Moment} (hr : Run earlier past) (r : Request)
    (hnew : Heap.Steps ((reached earlier).Does r) (reached earlier).moment new
      (reached (r :: earlier)).moment) : Run (r :: earlier) (new ++ past)

theorem reached_reachable (requests : List Request) : (reached requests).Reachable := by
  induction requests with
  | nil => exact .empty
  | cons r earlier ih => exact ih.after r

/-- Every request is a row of steps. -/
theorem leads_after {m : Machine} (hm : m.Reachable) (r : Request) :
    Heap.Leads (m.Does r) m.moment (m.after r).heap (m.after r).handles := by
  have hP : Heap.Invariant (m.Does r) (Heap.Leads (m.Does r) m.moment) :=
    Heap.invariant_leads (m.Does r) hm.heap.accounted
  have hstart : m.Holds (Heap.Leads (m.Does r) m.moment) [] := by
    refine ⟨?_, hm.holds.nodup⟩
    rw [List.append_nil]
    exact ⟨[], .refl⟩
  have hleads := (hstart.after hP r fun _ he => he).related
  rwa [List.append_nil] at hleads

theorem exists_run (requests : List Request) : ∃ past, Run requests past := by
  induction requests with
  | nil => exact ⟨[], .nil⟩
  | cons r earlier ih =>
    obtain ⟨past, hr⟩ := ih
    obtain ⟨new, hnew⟩ := leads_after (reached_reachable earlier) r
    exact ⟨new ++ past, hr.cons r hnew⟩

/-- The moments of a history are a row of steps from the empty heap. -/
theorem Run.steps {requests : List Request} {past : List Heap.Moment} (hr : Run requests past) :
    Heap.Steps (fun _ => True) .empty past (reached requests).moment := by
  induction hr with
  | nil => exact .refl
  | cons _ r hnew ih => exact ih.append (hnew.mono fun _ _ => trivial)

/-- **Accounts are balanced at every moment.** Every list of requests has a history, and at each moment
of every history of it, in the middle of a request too, the accounts of all trackers show the
containers that exist and the largest number of them that there has been, and a tracker refuses a
container if it shows as many as there may be and else takes it. -/
theorem run_balances (requests : List Request) :
    (∃ past, Run requests past) ∧ ∀ past, Run requests past →
      ∀ later now earlier, (reached requests).moment :: past = later ++ now :: earlier →
        now.Balances earlier := by
  refine ⟨exists_run requests, fun past hr later now earlier hnow => ?_⟩
  exact (hr.steps.upto hnow).balances

/-- A clone that is refused leaves nothing but a higher peak behind. -/
example : (reached [⟨"s", none, some ⟨3, 1⟩, .clone "x"⟩,
    ⟨"s", none, none, .push "x" (.copy "x") 1⟩,
    ⟨"s", some "x", none, .create .struct []⟩,
    ⟨"s", none, none, .openTracker 9⟩]).usage? "s" = some (1, 4) := by
  cbv

end Machine

end BoundedVm
