import BoundedVm.Heap.Clone
import BoundedVm.Heap.Compare
import BoundedVm.Heap.Convert

/-! # The stress run

`stress limits depth width` builds a chain of `depth` structs, each holding `width` integers and the
struct before it, clones the last one and compares it with its clone, all under the limits of one
execution. The outcome says how far the run got and what the tracker showed on the way. -/

namespace BoundedVm

/-- How a stress run ends. -/
inductive StressOutcome where
  /-- A level of the chain could not be built. -/
  | levelRefused (level : Nat) (fault : ValueFault)
  /-- The struct that stands for a chain of no levels could not be built. -/
  | rootRefused (fault : ValueFault)
  | cloneRefused (built : Nat) (fault : ValueFault)
  | comparisonRefused (built cloned : Nat) (fault : ValueFault)
  /-- The run got to its end; the peak and the limit are the tracker's. -/
  | finished (built cloned : Nat) (equal : Bool) (peak limit : Nat)

namespace Heap

/-- The live containers of a tracker. -/
def live (h : Heap) (t : TrackerId) : Nat :=
  match h.tracker? t with
  | some account => account.live
  | none => 0

/-- The largest number of live containers of a tracker so far. -/
def peak (h : Heap) (t : TrackerId) : Nat :=
  match h.tracker? t with
  | some account => account.peak
  | none => 0

/-- The limit of a tracker. -/
def limit (h : Heap) (t : TrackerId) : Nat :=
  match h.tracker? t with
  | some account => account.limit
  | none => 0

/-- New integers counting up from `first`, put after the given items. -/
def countUp (items : Array Item) (first : Nat) : Nat → Heap → Array Item × Heap
  | 0, h => (items, h)
  | n + 1, h =>
    let made := h.newInteger (.ofNative (.u64 (UInt64.ofNat first)))
    countUp (items.push made.1) (first + 1) n made.2

/-- Builds `n` further levels of a chain, the first of them at `level`, around the struct built last.
A refusal names the level it befell. -/
def buildChain (t : TrackerId) (width : Nat) (n level : Nat) (inner : Option ContainerId) (h : Heap) :
    Except (Nat × ValueFault) (Option ContainerId) × Heap :=
  match n with
  | 0 => (.ok inner, h)
  | n + 1 =>
    let counted := h.countUp #[] (level * width) width
    let items := match inner with
      | some c => counted.1.push (.struct c)
      | none => counted.1
    match counted.2.create t items with
    | (.ok c, h) => buildChain t width n (level + 1) (some c) h
    | (.error e, h) => (.error (level, e), h)

/-- Builds a chain of structs; without levels it is one empty struct. -/
def buildNested (t : TrackerId) (depth width : Nat) (h : Heap) :
    Except (Option Nat × ValueFault) ContainerId × Heap :=
  match h.buildChain t width depth 0 none with
  | (.error (level, e), h) => (.error (some level, e), h)
  | (.ok (some c), h) => (.ok c, h)
  | (.ok none, h) =>
    match h.create t #[] with
    | (.ok c, h) => (.ok c, h)
    | (.error e, h) => (.error (none, e), h)

end Heap

/-- Builds, clones and compares a chain of structs in an execution of its own. -/
def stress (limits : Limits) (depth width : Nat) : StressOutcome :=
  let opened := Heap.empty.openTracker limits.maxStackSize.toNat
  let t := opened.1
  match opened.2.buildNested t depth width with
  | (.error (some level, e), _) => .levelRefused level e
  | (.error (none, e), _) => .rootRefused e
  | (.ok top, h) =>
    let built := h.live t
    match h.cloneStruct top limits with
    | (.error e, _) => .cloneRefused built e
    | (.ok copy, h) =>
      match h.equals limits (.struct top) (.struct copy) with
      | .error e => .comparisonRefused built (h.live t) e
      | .ok equal => .finished built (h.live t) equal (h.peak t) (h.limit t)

end BoundedVm
