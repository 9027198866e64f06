import BoundedVm.Heap.Basic

/-! # The bounded comparison of structs

`Heap.compareStruct` compares two structs by content. Pairs still to be compared are kept on two
stacks of equal height, and each pair taken off costs one unit of a budget of the stack size. Equal
references are equal without being looked into, which is what ends a walk over a shared cycle. Only the
topmost `budget + 1` pairs can still be reached before the budget is used up, so that no more than these
are kept, however wide a struct is. -/

namespace BoundedVm

/-- What the walk does with one pair. -/
inductive PairStep where
  /-- The pair is equal. -/
  | equal
  /-- The pair consists of two structs, whose elements are to be compared. -/
  | descend (s t : ContainerId)
  /-- The pair differs. -/
  | differ
  /-- The pair cannot be compared under the limits. -/
  | refuse (fault : ValueFault)

namespace Heap

/-- The last `n` elements of an array, or all if it has no more. -/
def lastItems (n : Nat) (xs : Array Item) : Array Item :=
  xs.extract (xs.size - n) xs.size

/-- The array without its first `n` elements. -/
def dropBottom (n : Nat) (xs : Array Item) : Array Item :=
  if n = 0 then xs else xs.extract n xs.size

/-- What the walk does with one pair: equal references are equal, two structs of equal length have
their elements compared, and all else is decided by the visible content. -/
def pairStep (h : Heap) (limits : Limits) (a b : Item) : PairStep :=
  if a = b then .equal
  else
    match a, b with
    | .struct s, .struct t =>
      if (h.items s).size = (h.items t).size then .descend s t else .differ
    | a, b =>
      if a.isStruct || b.isStruct then .differ
      else
        match a.leafEquals limits b with
        | .ok true => .equal
        | .ok false => .differ
        | .error e => .refuse e

theorem pairStep_struct_struct (h : Heap) (limits : Limits) (s t : ContainerId) :
    h.pairStep limits (.struct s) (.struct t)
      = if s = t then .equal
        else if (h.items s).size = (h.items t).size then .descend s t else .differ := by
  simp [pairStep]

/-- A struct and an item that is none differ. -/
theorem pairStep_of_isStruct_ne (h : Heap) (limits : Limits) {a b : Item}
    (hab : a.isStruct ≠ b.isStruct) : h.pairStep limits a b = .differ := by
  cases a <;> cases b <;> simp_all [pairStep, Item.isStruct]

theorem pairStep_of_isStruct_eq_false (h : Heap) (limits : Limits) {a b : Item}
    (ha : a.isStruct = false) (hb : b.isStruct = false) :
    h.pairStep limits a b
      = if a = b then .equal
        else
          match a.leafEquals limits b with
          | .ok true => .equal
          | .ok false => .differ
          | .error e => .refuse e := by
  cases a <;> cases b <;> simp_all [pairStep, Item.isStruct]

/-- Compares the pairs on two stacks, whose tops are the last elements. -/
def compareStacks (h : Heap) (limits : Limits) (budget : Nat) (left right : Array Item) :
    Except ValueFault Bool :=
  match left.back? with
  | none => .ok true
  | some a =>
    match budget with
    | 0 => .error .comparisonTooLarge
    | budget + 1 =>
      match right.back? with
      | none => .ok false
      | some b =>
        match h.pairStep limits a b with
        | .equal => compareStacks h limits budget left.pop right.pop
        | .descend s t =>
          -- the budget left, and one pair more at which it is found to be used up
          let reach := budget + 1
          let left := left.pop ++ lastItems reach (h.items s)
          let right := right.pop ++ lastItems reach (h.items t)
          let excess := left.size - reach
          compareStacks h limits budget (dropBottom excess left) (dropBottom excess right)
        | .differ => .ok false
        | .refuse e => .error e

/-- Whether a struct has the same content as an item; an item other than a struct differs at once. -/
def compareStruct (h : Heap) (limits : Limits) (s : ContainerId) (other : Item) :
    Except ValueFault Bool :=
  match other with
  | .struct t =>
    compareStacks h limits limits.maxStackSize.toNat #[.struct s] #[.struct t]
  | _ => .ok false

theorem compareStruct_of_isStruct_eq_false (h : Heap) (limits : Limits) (s : ContainerId)
    {other : Item} (ho : other.isStruct = false) :
    h.compareStruct limits s other = .ok false := by
  cases other <;> simp_all [compareStruct, Item.isStruct]

/-- Whether two items are equal under the limits of an execution: structs by the bounded walk, all
else by its visible content. -/
def equals (h : Heap) (limits : Limits) (a b : Item) : Except ValueFault Bool :=
  match a with
  | .struct s => h.compareStruct limits s b
  | _ => if b.isStruct then .ok false else a.leafEquals limits b

@[simp] theorem equals_struct (h : Heap) (limits : Limits) (s : ContainerId) (b : Item) :
    h.equals limits (.struct s) b = h.compareStruct limits s b := rfl

theorem equals_of_isStruct_eq_false (h : Heap) (limits : Limits) {a : Item}
    (ha : a.isStruct = false) (b : Item) :
    h.equals limits a b = if b.isStruct then .ok false else a.leafEquals limits b := by
  cases a <;> simp_all [equals, Item.isStruct]

end Heap

end BoundedVm
