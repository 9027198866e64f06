import BoundedVm.Heap.Clone
import BoundedVm.Heap.Compare
import BoundedVm.Heap.Convert
import BoundedVm.Heap.Outline

/-! # The machine

A `Machine` is a heap together with names: slots that hold one handle each, scripts, and scopes. A
scope is an execution with its limits and its tracker, or a bare tracker. An `Action` is a computation
on a machine that may be refused; what it has done before the refusal stays done.

The rule for handles is that an action owns the handles that it is given or makes, and either stores
them, hands them on or gives them up. -/

namespace BoundedVm

/-- An execution, or a bare tracker. -/
structure Scope where
  tracker : TrackerId
  limits : Limits
  /-- Whether the scope is an execution that has not ended. -/
  running : Bool

/-- A heap with named slots, scripts and scopes. -/
structure Machine where
  heap : Heap
  slots : List (String × Item)
  /-- The scripts by name and number, the latest first. -/
  scripts : List (String × Nat)
  scopes : List (String × Scope)

/-- Why an action on a machine is refused. -/
inductive MachineFault where
  | value (fault : ValueFault)
  /-- A name that nothing suitable bears. -/
  | unknownName

/-- A computation on a machine that may be refused. -/
abbrev Action (α : Type) := EStateM MachineFault Machine α

/-- A value to be made, copied or moved. Every value that is written out is a new allocation. -/
inductive Operand where
  | null
  | boolean (b : Bool)
  | integer (value : Int)
  | integerBytes (bytes : List UInt8)
  | native (n : Native)
  | bytes (content : List UInt8)
  | pointer (script : String) (position : Nat)
  /-- A further handle to the value in a slot. -/
  | copy (slot : String)
  /-- The handle in a slot, which is left without one. -/
  | move (slot : String)
  /-- A further handle to an element of the container in a slot. -/
  | element (slot : String) (index : Nat)

/-- The list of pairs in which the name stands for a value, and nothing else. -/
def putNamed {α : Type} (name : String) (x : α) (xs : List (String × α)) : List (String × α) :=
  (name, x) :: xs.filter (·.1 != name)

namespace Machine

/-- The machine without containers and names. -/
def empty : Machine := ⟨Heap.empty, [], [], []⟩

/-! ## Heap actions -/

/-- Applies an operation of the heap that may be refused. -/
def onHeap {α : Type} (f : Heap → Except ValueFault α × Heap) : Action α := fun m =>
  match m with
  | ⟨heap, slots, scripts, scopes⟩ =>
    match f heap with
    | (.ok a, heap) => .ok a ⟨heap, slots, scripts, scopes⟩
    | (.error e, heap) => .error (.value e) ⟨heap, slots, scripts, scopes⟩

/-- Applies an operation of the heap that cannot be refused. -/
def modifyHeap (f : Heap → Heap) : Action Unit := fun m =>
  match m with
  | ⟨heap, slots, scripts, scopes⟩ => .ok () ⟨f heap, slots, scripts, scopes⟩

/-- Gives up some handles. -/
def giveUp (xs : List Item) : Action Unit :=
  modifyHeap (Heap.release xs)

/-- Does an action while some handles are held, which are given up if it is refused. -/
def holding {α : Type} (xs : Array Item) (act : Action α) : Action α := fun m =>
  match act m with
  | .ok a m => .ok a m
  | .error e m =>
    match giveUp xs.toList m with
    | .ok _ m => .error e m
    | .error _ m => .error e m

/-! ## Names -/

/-- The value that a name stands for. -/
def find {α : Type} (name : String) (names : Machine → List (String × α)) : Action α := fun m =>
  match (names m).lookup name with
  | some x => .ok x m
  | none => .error .unknownName m

/-- The item in a slot; the slot keeps its handle. -/
def slot (name : String) : Action Item := find name Machine.slots

/-- The container that an item is. -/
def containerOf (x : Item) : Action ContainerId :=
  match x.container? with
  | some c => pure c
  | none => throw .unknownName

/-- The container in a slot. -/
def containerIn (name : String) : Action ContainerId := do
  containerOf (← slot name)

/-- The struct in a slot. -/
def structIn (name : String) : Action ContainerId := do
  match ← slot name with
  | .struct c => pure c
  | _ => throw .unknownName

/-- Takes the handle out of a slot. -/
def takeSlot (name : String) : Action Item := do
  let x ← slot name
  modify fun m => { m with slots := m.slots.filter (·.1 != name) }
  pure x

/-- Puts a handle into a slot and gives up the one that was there. -/
def putSlot (name : String) (x : Item) : Action Unit := do
  -- the old handle is given up last, when the slot no longer holds it
  let old := (← get).slots.lookup name
  modify fun m => { m with slots := putNamed name x m.slots }
  giveUp old.toList

/-- The scope with a name. -/
def scope (name : String) : Action Scope := find name Machine.scopes

/-! ## Operands -/

/-- Makes, copies or moves a value. -/
def operand : Operand → Action Item
  | .null => pure .null
  | .boolean b => pure (.boolean b)
  | .integer v => onHeap fun h =>
    match Integer.ofInt v with
    | .ok i => let made := h.newInteger i; (.ok made.1, made.2)
    | .error e => (.error e, h)
  | .integerBytes bytes => onHeap fun h =>
    match Integer.ofBytes bytes with
    | .ok i => let made := h.newInteger i; (.ok made.1, made.2)
    | .error e => (.error e, h)
  | .native n => onHeap fun h => let made := h.newInteger (.ofNative n); (.ok made.1, made.2)
  | .bytes content => onHeap fun h => let made := h.newBytes content; (.ok made.1, made.2)
  | .pointer script position => do
    let number ← find script Machine.scripts
    pure (.pointer number position)
  | .copy name => do
    let x ← slot name
    modifyHeap (Heap.share 1 x)
    pure x
  | .move name => takeSlot name
  | .element name index => do
    let c ← containerIn name
    onHeap (Heap.get c index)

/-- Makes several values in order, each as often as is said; if one is refused, those made before are
given up. -/
def operands (made : Array Item) : List (Operand × Nat) → Action (Array Item)
  | [] => pure made
  | (o, n) :: rest => do
    let x ← holding made (operand o)
    modifyHeap (Heap.share n x)
    giveUp [x]
    operands (made ++ Array.replicate n x) rest

end Machine

end BoundedVm
