import BoundedVm.Heap.Containers

/-! # The bounded clone of a struct

`Heap.cloneStruct` copies a struct and, breadth first, every struct inside it; all other elements are
shared with the source. Each element visited costs one unit of a budget of one less than the stack
size, so that a cyclic struct runs out of budget. The copies belong to the tracker of the struct that
is cloned, and after a refusal none of them remains. -/

namespace BoundedVm

/-- The copies still to be filled, each with the struct that it is a copy of; the first `next` entries
are done. -/
structure CloneQueue where
  entries : Array (ContainerId × ContainerId)
  next : Nat

namespace CloneQueue

/-- The queue with nothing to do. -/
def empty : CloneQueue := ⟨#[], 0⟩

/-- The number of copies still to be filled. -/
def size (q : CloneQueue) : Nat := q.entries.size - q.next

/-- Adds a copy to be filled last. -/
def push (q : CloneQueue) (copy source : ContainerId) : CloneQueue :=
  { q with entries := q.entries.push (copy, source) }

/-- The copy to be filled next and the queue after it. -/
def pop? (q : CloneQueue) : Option ((ContainerId × ContainerId) × CloneQueue) :=
  q.entries[q.next]?.map fun entry => (entry, { q with next := q.next + 1 })

theorem size_of_pop? {q rest : CloneQueue} {entry : ContainerId × ContainerId}
    (h : q.pop? = some (entry, rest)) : rest.size < q.size := by
  simp only [pop?, Option.map_eq_some_iff, Prod.mk.injEq] at h
  obtain ⟨_, hn, _, rfl⟩ := h
  have := (Array.getElem?_eq_some_iff.mp hn).1
  simp only [size]
  omega

end CloneQueue

namespace Heap

/-- Fills the copy `target` with the items `todo`, then the copies of the queue, each item costing one
unit of the budget. -/
def fillCopies (owner : TrackerId) (budget : Nat) (target : ContainerId) (todo : List Item)
    (queue : CloneQueue) (h : Heap) : Except ValueFault Unit × Heap :=
  match todo with
  | [] =>
    match _ : queue.pop? with
    | none => (.ok (), h)
    | some ((copy, source), rest) =>
      fillCopies owner budget copy (h.items source).toList rest h
  | x :: todo =>
    match budget with
    | 0 => (.error .cloneTooLarge, h)
    | budget + 1 =>
      match x with
      | .struct source =>
        match h.create owner #[] with
        | (.error e, h) => (.error e, h)
        | (.ok copy, h) =>
          -- the copy is stored while it is empty, so that after a refusal the first copy holds it
          fillCopies owner budget target todo (queue.push copy source)
            (h.push target (.struct copy))
      | x => fillCopies owner budget target todo queue ((h.share 1 x).push target x)
termination_by (budget, queue.size)
decreasing_by
  · exact Prod.Lex.right _ (CloneQueue.size_of_pop? (by assumption))
  · exact Prod.Lex.left _ _ (Nat.lt_succ_self _)
  · exact Prod.Lex.left _ _ (Nat.lt_succ_self _)

/-- Once the budget is spent, the next item is refused. -/
theorem fillCopies_zero_cons {owner : TrackerId} {target : ContainerId} {todo : List Item}
    {queue : CloneQueue} {h : Heap} (x : Item) :
    h.fillCopies owner 0 target (x :: todo) queue = (.error .cloneTooLarge, h) := by
  rw [fillCopies]

/-- The answer of a clone whose first copy is `root`; a copy that was not filled is given up. -/
def endClone (root : ContainerId) :
    Except ValueFault Unit × Heap → Except ValueFault ContainerId × Heap
  | (.ok (), h) => (.ok root, h)
  | (.error e, h) => (.error e, h.release [.struct root])

/-- A copy of a struct with every struct inside it copied too and every other element shared. -/
def cloneStruct (s : ContainerId) (limits : Limits) (h : Heap) :
    Except ValueFault ContainerId × Heap :=
  match h.create (h.owner s) #[] with
  | (.error e, h) => (.error e, h)
  -- the struct itself is not an element and takes the unit that the budget lacks
  | (.ok root, h) => endClone root
    (h.fillCopies (h.owner s) (limits.maxStackSize.toNat - 1) root (h.items s).toList .empty)

end Heap

end BoundedVm
