import BoundedVm.Machine.Basic

/-! # Requests to a machine

A `Request` names an operation, the scope that it runs in, the slot that takes its result and the
limits that replace the scope's for once. `Machine.perform` carries it out and answers. Handles that a
request uses for itself are given up before it answers. -/

namespace BoundedVm

/-- The ways to compare two values. -/
inductive Comparison where
  /-- The same reference. -/
  | reference
  /-- The same content of two integers, byte strings or pointers. -/
  | content
  /-- Equality that refuses structs. -/
  | tryEquals
  /-- Equality under limits. -/
  | equals
  /-- Equality of byte strings under limits. -/
  | byteStrings
  /-- Equality of a struct and an item under limits. -/
  | structs

/-- An operation of a machine. -/
inductive Operation where
  | openScope (limits : Limits)
  | openTracker (limit : Nat)
  | endScope
  | account
  | discard
  | script (name : String)
  | make (operand : Operand)
  | drop (slot : String)
  | create (kind : Compound) (items : List (Operand × Nat))
  | nest (kind : Compound) (depth : Nat) (base before after : List (Operand × Nat)) (copies : Nat)
  | compare (test : Comparison) (a b : Operand)
  | outline (operand : Operand) (depth : Nat)
  | profile (operand : Operand)
  | boolean (operand : Operand)
  | integer (operand : Operand)
  | convert (operand : Operand) (target : Kind)
  | describe (operand : Operand)
  | clone (slot : String)
  | toArray (slot : String)
  | push (slot : String) (operand : Operand) (count : Nat)
  | set (slot : String) (index : Nat) (operand : Operand)
  | get (slot : String) (index : Nat)
  | remove (slot : String) (index : Nat)
  | clear (slot : String)
  | length (slot : String)
  | items (slot : String)
  | owner (slot : String)

/-- An operation with the scope it runs in, the slot for its result and the limits for once. -/
structure Request where
  scope : String
  store : Option String
  limits : Option Limits
  operation : Operation

/-- What a machine answers. -/
inductive Answer where
  | done
  | flag (b : Bool)
  | count (n : Nat)
  | text (s : String)
  | limits (l : Limits)
  | account (t : Tracker)
  | value (v : View)
  | values (vs : List View)
  | outline (o : Outline)
  /-- The kind of a value, and its number if it is an integer. -/
  | profile (kind : Kind) (integer : Option Int)
  | length (n : Nat)

namespace Heap

/-- Whether two integers, byte strings or pointers have the same content. -/
def sameContent : Item → Item → Bool
  | .integer _ i, .integer _ j => i.value = j.value
  | .bytes _ x, .bytes _ y => x == y
  | .pointer s p, .pointer t q => s = t ∧ p = q
  | _, _ => false

/-- Compares two values in one of the ways. -/
def compareBy (h : Heap) (limits : Limits) (test : Comparison) (a b : Item) :
    Except ValueFault Bool :=
  match test, a, b with
  | .reference, a, b => .ok (a = b)
  | .content, a, b => .ok (sameContent a b)
  | .tryEquals, a, b => a.tryEquals b
  | .equals, a, b => h.equals limits a b
  | .byteStrings, .bytes m x, .bytes n y => Item.bytesEqual limits m x n y
  | .structs, .struct s, b => h.compareStruct limits s b
  | _, _, _ => .ok false

/-- Wraps a container `depth` times into a new one, which holds further handles to `before`, as many
handles to the container as `copies` says, and further handles to `after`. The container's own handle
is given up before the new one is created. -/
def nest (t : TrackerId) (kind : Compound) (before after : List Item) (copies : Nat) :
    Nat → ContainerId → Heap → Except ValueFault ContainerId × Heap
  | 0, c, h => (.ok c, h)
  | depth + 1, c, h =>
    let inner := kind.item c
    -- without a copy of it the inner container ends before the outer one is created
    let h := ((h.shareAll before).share copies inner).shareAll after
    let h := h.release [inner]
    match h.create t (before.toArray ++ Array.replicate copies inner ++ after.toArray) with
    | (.ok outer, h) => nest t kind before after copies depth outer h
    | (.error e, h) => (.error e, h)

end Heap

namespace Machine

/-- Ends a scope: if it is an execution that has not ended, its containers are discarded. -/
def endScope (name : String) : Action Bool := fun m =>
  match m.scopes.lookup name with
  | some s =>
    if s.running then
      -- taken apart, so that the heap has no second user while it changes
      match m with
      | ⟨heap, slots, scripts, scopes⟩ =>
        .ok true ⟨(heap.discard s.tracker).2, slots, scripts,
          putNamed name { s with running := false } scopes⟩
    else .ok false m
  | none => .ok false m

/-- Opens a scope over a new tracker; an execution that bore the name ends. -/
def openTracker (name : String) (limit : Nat) (limits : Limits) (running : Bool) : Action Unit := do
  let _ ← endScope name
  let t ← onHeap fun h => let opened := h.openTracker limit; (.ok opened.1, opened.2)
  modify fun m => { m with scopes := putNamed name ⟨t, limits, running⟩ m.scopes }

/-- Opens an execution, unless its limits are invalid. -/
def openScope (name : String) (limits : Limits) : Action Limits := do
  match limits.validate with
  | .ok limits =>
    openTracker name limits.maxStackSize.toNat limits true
    pure limits
  | .error e => throw (.value e)

/-- Shows a result, and puts its handle into the slot for it or gives the handle up. -/
def keep (store : Option String) (x : Item) : Action Answer := do
  let shown := (← get).heap.view x
  match store with
  | some name => putSlot name x
  | none => giveUp [x]
  pure (.value shown)

/-- What a value, made for the purpose, shows. -/
def observe (o : Operand) (look : Heap → Item → Except ValueFault Answer) : Action Answer := do
  let x ← operand o
  let result := look (← get).heap x
  giveUp [x]
  match result with
  | .ok answer => pure answer
  | .error e => throw (.value e)

/-- Makes a container that holds some values. -/
def create (kind : Compound) (t : TrackerId) (items : Array Item) : Action Item := do
  let c ← onHeap (Heap.create t items)
  pure (kind.item c)

/-- The account of a tracker. -/
def accountOf (t : TrackerId) : Action Answer := do
  match (← get).heap.tracker? t with
  | some account => pure (.account account)
  | none => throw .unknownName

/-- Carries out a request and answers. -/
def perform (r : Request) : Action Answer :=
  match r.operation with
  | .openScope limits => do pure (.limits (← openScope r.scope limits))
  | .openTracker limit => do
    openTracker r.scope limit .standard false
    pure .done
  | .endScope => do pure (.flag (← endScope r.scope))
  | .account => do accountOf (← scope r.scope).tracker
  | .discard => do
    let s ← scope r.scope
    pure (.count (← onHeap fun h => let done := h.discard s.tracker; (.ok done.1, done.2)))
  | .script name => do
    let number := (← get).scripts.length
    modify fun m => { m with scripts := (name, number) :: m.scripts }
    pure (.count number)
  | .make o => do keep r.store (← operand o)
  | .drop name => do
    if ((← get).slots.lookup name).isSome then
      giveUp [← takeSlot name]
      pure (.flag true)
    else pure (.flag false)
  | .create kind items => do
    let s ← scope r.scope
    keep r.store (← create kind s.tracker (← operands #[] items))
  | .nest kind depth base before after copies => do
    let s ← scope r.scope
    let base ← operands #[] base
    let before ← holding base (operands #[] before)
    let after ← holding (base ++ before) (operands #[] after)
    let extra := before ++ after
    let inner ← holding extra (onHeap (Heap.create s.tracker base))
    let outer ← holding extra
      (onHeap (Heap.nest s.tracker kind before.toList after.toList copies depth inner))
    giveUp extra.toList
    keep r.store (kind.item outer)
  | .compare test a b => do
    let s ← scope r.scope
    let x ← operand a
    let y ← holding #[x] (operand b)
    let result := (← get).heap.compareBy (r.limits.getD s.limits) test x y
    giveUp [x, y]
    match result with
    | .ok equal => pure (.flag equal)
    | .error e => throw (.value e)
  | .outline o depth => observe o fun h x => .ok (.outline (h.outline depth x))
  | .profile o => observe o fun _ x => .ok (.profile x.kind x.number?)
  | .boolean o => observe o fun _ x => x.toBool.map .flag
  | .describe o => observe o fun h x => .ok (.text (h.describe x))
  | .integer o => do
    let x ← operand o
    let y ← holding #[x] (onHeap (Heap.integerOf x))
    giveUp [x]
    keep r.store y
  | .convert o target => do
    let x ← operand o
    let y ← holding #[x] (onHeap (Heap.convert x target))
    giveUp [x]
    keep r.store y
  | .clone name => do
    let s ← scope r.scope
    let c ← structIn name
    keep r.store (.struct (← onHeap (Heap.cloneStruct c (r.limits.getD s.limits))))
  | .toArray name => do
    let c ← structIn name
    keep r.store (.array (← onHeap (Heap.toArray c)))
  | .push name o count => do
    -- the receiver is held first, since making the item may take it out of its slot
    let receiver ← operand (.copy name)
    let x ← holding #[receiver] (operand o)
    let c ← holding #[x, receiver] (containerOf receiver)
    modifyHeap (Heap.pushCopies c x count)
    let length := ((← get).heap.items c).size
    giveUp [receiver]
    pure (.count length)
  | .set name index o => do
    -- the receiver is held first here too
    let receiver ← operand (.copy name)
    let x ← holding #[receiver] (operand o)
    let c ← holding #[x, receiver] (containerOf receiver)
    holding #[receiver] (onHeap (Heap.set c index x))
    giveUp [receiver]
    pure .done
  | .get name index => do
    let c ← containerIn name
    keep r.store (← onHeap (Heap.get c index))
  | .remove name index => do
    let c ← containerIn name
    keep r.store (← onHeap (Heap.remove c index))
  | .clear name => do
    modifyHeap (Heap.clear (← containerIn name))
    pure .done
  | .length name => do
    let c ← containerIn name
    pure (.length ((← get).heap.items c).size)
  | .items name => do
    let c ← containerIn name
    let heap := (← get).heap
    pure (.values ((heap.items c).toList.map heap.view))
  | .owner name => do
    let c ← containerIn name
    accountOf ((← get).heap.owner c)

/-- A machine with one execution open, unless its limits are invalid. -/
def start (name : String) (limits : Limits) : Except ValueFault Machine :=
  match openScope name limits empty with
  | .ok _ m => .ok m
  | .error (.value e) _ => .error e
  | .error .unknownName m => .ok m

/-- The live containers of a scope and the most there have been, if the scope exists. -/
def usage? (m : Machine) (name : String) : Option (Nat × Nat) :=
  (m.scopes.lookup name).bind fun s => (m.heap.tracker? s.tracker).map fun t => (t.live, t.peak)

end Machine

end BoundedVm
