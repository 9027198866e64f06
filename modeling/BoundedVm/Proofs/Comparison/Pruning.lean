import BoundedVm.Proofs.Comparison.Pair
import Mathlib.Data.List.Basic

/-! # The comparison of structs without pruning

`Heap.compareStacks` puts only the last `budget + 1` elements of each struct on its stacks and drains
their bottoms down to as many. This file compares it with two walks that keep all that is pending:

* `compareUnpruned` has the two stacks too, but puts all elements of both structs on them and never
  drops a pair.
* `comparePairs` keeps one list of the pending pairs. It is the form in which the later files reason
  about the comparison, since one list cannot get out of step.

Both stack walks equal the walk over pairs. For the pruned one this rests on
`comparePairs_take_of_lt`: a walk with a budget of `budget` never gets to the pairs below the topmost
`budget + 1`, so that they may be dropped or not. -/

namespace BoundedVm

namespace Heap

variable (h : Heap) (limits : Limits)

/-! ## The walks that keep all pending pairs -/

/-- Compares the pairs on two stacks, whose tops come first. All elements of two structs are put on
the stacks and no pending pair is dropped. -/
def compareUnpruned : Nat → List Item → List Item → Except ValueFault Bool
  | _, [], _ => .ok true
  | 0, _ :: _, _ => .error .comparisonTooLarge
  | _ + 1, _ :: _, [] => .ok false
  | budget + 1, a :: left, b :: right =>
    match h.pairStep limits a b with
    | .equal => compareUnpruned budget left right
    | .descend s t =>
      compareUnpruned budget ((h.items s).toList.reverse ++ left)
        ((h.items t).toList.reverse ++ right)
    | .differ => .ok false
    | .refuse e => .error e

/-- The bounded comparison of a struct and an item by the walk that keeps all pending pairs. -/
def compareStructUnpruned (s : ContainerId) (other : Item) : Except ValueFault Bool :=
  match other with
  | .struct t => h.compareUnpruned limits limits.maxStackSize.toNat [.struct s] [.struct t]
  | _ => .ok false

/-- The pairs of elements of two structs, the last one first. -/
def elementPairs (s t : ContainerId) : List (Item × Item) :=
  (h.items s).toList.reverse.zip (h.items t).toList.reverse

/-- Compares the pairs of a list, the first one first; the elements of two structs come before the
pairs already pending. -/
def comparePairs : Nat → List (Item × Item) → Except ValueFault Bool
  | _, [] => .ok true
  | 0, _ :: _ => .error .comparisonTooLarge
  | budget + 1, (a, b) :: pending =>
    match h.pairStep limits a b with
    | .equal => comparePairs budget pending
    | .descend s t => comparePairs budget (h.elementPairs s t ++ pending)
    | .differ => .ok false
    | .refuse e => .error e

@[simp] theorem comparePairs_nil (budget : Nat) : h.comparePairs limits budget [] = .ok true := by
  cases budget <;> rfl

variable {h limits}

/-- Only structs of equal length are looked into. -/
theorem size_eq_of_pairStep_eq_descend {a b : Item} {s t : ContainerId}
    (hab : h.pairStep limits a b = .descend s t) : (h.items s).size = (h.items t).size := by
  have hspec := h.pairStep_spec limits a b
  rw [hab] at hspec
  exact hspec.2.2.2

/-! ## The reach of a budget -/

/-- What lies below the first `n` entries of a list does not show in the first `n` entries of a list
that has it at the end. -/
theorem take_append_take {α : Type} (n : Nat) (xs ys : List α) :
    (xs ++ ys.take n).take n = (xs ++ ys).take n := by
  rw [List.take_append, List.take_append, List.take_take, Nat.min_eq_left (Nat.sub_le _ _)]

/-- What lies below the first `n` entries of a list does not show in the first `n` entries of a list
that begins with it. -/
theorem take_take_append {α : Type} (n : Nat) (xs ys : List α) :
    (xs.take n ++ ys).take n = (xs ++ ys).take n := by
  rw [List.take_append, List.take_append, List.take_take, Nat.min_self, List.length_take]
  rcases Nat.le_total n xs.length with hn | hn
  · rw [Nat.min_eq_left hn, Nat.sub_self, Nat.sub_eq_zero_of_le hn]
  · rw [Nat.min_eq_right hn]

/-- Dropping the entries in excess of `n` from the end of a list keeps its first `n` entries. -/
theorem take_length_sub_length_sub {α : Type} (n : Nat) (xs : List α) :
    xs.take (xs.length - (xs.length - n)) = xs.take n := by
  rcases Nat.le_total n xs.length with hn | hn
  · rw [Nat.sub_sub_self hn]
  · rw [List.take_of_length_le (by omega), List.take_of_length_le hn]

/-- **The reach of a budget.** A walk over pairs with a budget below `n` comes to the same result if
only the first `n` pending pairs are kept. -/
theorem comparePairs_take_of_lt {budget n : Nat} (hn : budget < n) (pending : List (Item × Item)) :
    h.comparePairs limits budget (pending.take n) = h.comparePairs limits budget pending := by
  induction budget generalizing n pending with
  | zero =>
    obtain ⟨n, rfl⟩ := Nat.exists_eq_succ_of_ne_zero (Nat.ne_zero_of_lt hn)
    cases pending <;> rfl
  | succ budget ih =>
    obtain ⟨n, rfl⟩ := Nat.exists_eq_succ_of_ne_zero (Nat.ne_zero_of_lt hn)
    have hb : budget < n := Nat.lt_of_succ_lt_succ hn
    cases pending with
    | nil => rfl
    | cons pair pending =>
      obtain ⟨a, b⟩ := pair
      rw [List.take_succ_cons, comparePairs, comparePairs]
      cases h.pairStep limits a b with
      | equal => exact ih hb pending
      | descend s t =>
        -- both lists agree in the first `n` pairs, and the budget left does not reach further
        show h.comparePairs limits budget (h.elementPairs s t ++ pending.take n)
          = h.comparePairs limits budget (h.elementPairs s t ++ pending)
        rw [← ih hb (h.elementPairs s t ++ pending.take n), take_append_take, ih hb]
      | differ => rfl
      | refuse e => rfl

/-! ## The unpruned stacks -/

/-- Two stacks that grow by two structs of equal length grow by the pairs of their elements. -/
theorem zip_elements_append {s t : ContainerId} (hst : (h.items s).size = (h.items t).size)
    (left right : List Item) :
    ((h.items s).toList.reverse ++ left).zip ((h.items t).toList.reverse ++ right)
      = h.elementPairs s t ++ left.zip right := by
  rw [List.zip_append (by simpa using hst), elementPairs]

/-- On stacks of equal height the unpruned walk is the walk over the pairs on them. -/
theorem compareUnpruned_eq_comparePairs (budget : Nat) (left right : List Item)
    (hlen : left.length = right.length) :
    h.compareUnpruned limits budget left right
      = h.comparePairs limits budget (left.zip right) := by
  induction budget generalizing left right with
  | zero =>
    match left, right, hlen with
    | [], [], _ => rfl
    | _ :: _, _ :: _, _ => rfl
  | succ budget ih =>
    match left, right, hlen with
    | [], [], _ => rfl
    | a :: left, b :: right, hlen =>
      have hrest : left.length = right.length := Nat.succ.inj hlen
      rw [compareUnpruned, List.zip_cons_cons, comparePairs]
      cases hab : h.pairStep limits a b with
      | equal => exact ih left right hrest
      | descend s t =>
        -- both stacks grow by as many elements, so that they keep their equal height
        have hst := size_eq_of_pairStep_eq_descend hab
        show h.compareUnpruned limits budget _ _ = h.comparePairs limits budget _
        rw [ih _ _ (by simp [hst, hrest]), zip_elements_append hst]
      | differ => rfl
      | refuse e => rfl

/-! ## The pruned stacks -/

/-- The items of a stack, the top first. -/
def topFirst (xs : Array Item) : List Item :=
  xs.toList.reverse

@[simp] theorem length_topFirst (xs : Array Item) : (topFirst xs).length = xs.size := by
  simp [topFirst]

@[simp] theorem topFirst_empty : topFirst #[] = [] := rfl

@[simp] theorem topFirst_push (xs : Array Item) (x : Item) :
    topFirst (xs.push x) = x :: topFirst xs := by
  simp [topFirst]

theorem topFirst_append (xs ys : Array Item) :
    topFirst (xs ++ ys) = topFirst ys ++ topFirst xs := by
  simp [topFirst]

/-- A stack without its first entries consists of the topmost ones. -/
theorem topFirst_extract (n : Nat) (xs : Array Item) :
    topFirst (xs.extract n xs.size) = (topFirst xs).take (xs.size - n) := by
  rw [topFirst, Array.toList_extract, List.extract_eq_take_drop, topFirst,
    List.take_of_length_le (by simp), List.reverse_drop, Array.length_toList]

theorem topFirst_lastItems (n : Nat) (xs : Array Item) :
    topFirst (lastItems n xs) = (topFirst xs).take n := by
  rw [lastItems, topFirst_extract, ← length_topFirst, take_length_sub_length_sub]

theorem topFirst_dropBottom (n : Nat) (xs : Array Item) :
    topFirst (dropBottom n xs) = (topFirst xs).take (xs.size - n) := by
  unfold dropBottom
  split
  · rw [List.take_of_length_le (by simp; omega)]
  · exact topFirst_extract n xs

theorem size_dropBottom (n : Nat) (xs : Array Item) :
    (dropBottom n xs).size = xs.size - n := by
  rw [← length_topFirst, topFirst_dropBottom, List.length_take, length_topFirst,
    Nat.min_eq_left (Nat.sub_le _ _)]

/-- A stack that gets the last `n` items of a struct and is drained down to `n` entries holds the
topmost `n` entries of the stack that gets all items. -/
theorem topFirst_drained (n : Nat) (stack items : Array Item) :
    topFirst (dropBottom ((stack ++ lastItems n items).size - n) (stack ++ lastItems n items))
      = (topFirst items ++ topFirst stack).take n := by
  have hall : topFirst (stack ++ lastItems n items)
      = (topFirst items).take n ++ topFirst stack := by
    rw [topFirst_append, topFirst_lastItems]
  have hlen : (stack ++ lastItems n items).size
      = ((topFirst items).take n ++ topFirst stack).length := by
    rw [← hall, length_topFirst]
  rw [topFirst_dropBottom, hall, hlen, take_length_sub_length_sub, take_take_append]

/-- The pairs on two stacks of equal height that were pruned together are the topmost pairs of those on
the stacks that got all elements. -/
theorem zip_drained {s t : ContainerId} (hst : (h.items s).size = (h.items t).size)
    (n : Nat) {left right : Array Item} (hsize : left.size = right.size) :
    (topFirst (dropBottom ((left ++ lastItems n (h.items s)).size - n)
        (left ++ lastItems n (h.items s)))).zip
      (topFirst (dropBottom ((left ++ lastItems n (h.items s)).size - n)
        (right ++ lastItems n (h.items t))))
      = (h.elementPairs s t ++ (topFirst left).zip (topFirst right)).take n := by
  have hboth : (left ++ lastItems n (h.items s)).size = (right ++ lastItems n (h.items t)).size := by
    simp [lastItems, hst, hsize]
  rw [topFirst_drained, hboth, topFirst_drained, List.zip_eq_zipWith, ← List.take_zipWith,
    ← List.zip_eq_zipWith]
  exact congrArg (List.take n) (zip_elements_append hst _ _)

@[simp] theorem compareStacks_empty (budget : Nat) (right : Array Item) :
    h.compareStacks limits budget #[] right = .ok true := by
  cases budget <;> rfl

@[simp] theorem compareStacks_zero_push (left right : Array Item) (a : Item) :
    h.compareStacks limits 0 (left.push a) right = .error .comparisonTooLarge := by
  rw [compareStacks, Array.back?_push]

/-- One turn of the pruned walk: what it does with the pair on top. -/
theorem compareStacks_succ_push (budget : Nat) (left right : Array Item) (a b : Item) :
    h.compareStacks limits (budget + 1) (left.push a) (right.push b)
      = match h.pairStep limits a b with
        | .equal => h.compareStacks limits budget left right
        | .descend s t =>
          let excess := (left ++ lastItems (budget + 1) (h.items s)).size - (budget + 1)
          h.compareStacks limits budget
            (dropBottom excess (left ++ lastItems (budget + 1) (h.items s)))
            (dropBottom excess (right ++ lastItems (budget + 1) (h.items t)))
        | .differ => .ok false
        | .refuse e => .error e := by
  rw [compareStacks.eq_def]
  cases hstep : h.pairStep limits a b <;> simp only [Array.back?_push, Array.pop_push, hstep]

/-- **The pruned stacks.** On stacks of equal height the walk that prunes them is the walk over the
pairs on them. -/
theorem compareStacks_eq_comparePairs (budget : Nat) (left right : Array Item)
    (hsize : left.size = right.size) :
    h.compareStacks limits budget left right
      = h.comparePairs limits budget ((topFirst left).zip (topFirst right)) := by
  induction budget generalizing left right with
  | zero =>
    by_cases hl : left = #[]
    · simp [hl]
    · obtain ⟨left, a, rfl⟩ := Array.exists_push_of_ne_empty hl
      obtain ⟨right, b, rfl⟩ := right.exists_push_of_size_pos (by simp at hsize; omega)
      simp [comparePairs]
  | succ budget ih =>
    by_cases hl : left = #[]
    · simp [hl]
    · obtain ⟨left, a, rfl⟩ := Array.exists_push_of_ne_empty hl
      obtain ⟨right, b, rfl⟩ := right.exists_push_of_size_pos (by simp at hsize; omega)
      have hrest : left.size = right.size := by simpa using hsize
      rw [compareStacks_succ_push, topFirst_push, topFirst_push, List.zip_cons_cons, comparePairs]
      cases hab : h.pairStep limits a b with
      | equal => exact ih left right hrest
      | descend s t =>
        have hst := size_eq_of_pairStep_eq_descend hab
        show h.compareStacks limits budget _ _ = h.comparePairs limits budget _
        rw [ih _ _ (by simp [size_dropBottom, lastItems, hst, hrest]), zip_drained hst _ hrest]
        -- the pairs that were pruned lie below the reach of the budget
        exact comparePairs_take_of_lt (Nat.lt_succ_self budget) _
      | differ => rfl
      | refuse e => rfl

/-! ## The comparison of two structs -/

theorem compareStruct_struct (s t : ContainerId) :
    h.compareStruct limits s (.struct t)
      = h.comparePairs limits limits.maxStackSize.toNat [(.struct s, .struct t)] :=
  compareStacks_eq_comparePairs _ #[.struct s] #[.struct t] rfl

variable (h limits)

/-- **Pruning never changes a comparison.** Whatever the graph and the limits, the comparison that keeps
only the reachable pairs has the result of the one that keeps all: the same verdict or the same
refusal. -/
theorem compareStruct_eq_compareStructUnpruned (s : ContainerId) (other : Item) :
    h.compareStruct limits s other = h.compareStructUnpruned limits s other := by
  cases other with
  | struct t =>
    rw [compareStruct_struct, compareStructUnpruned,
      compareUnpruned_eq_comparePairs _ [.struct s] [.struct t] rfl, List.zip_cons_cons, List.zip_nil_left]
  | _ => rfl

end Heap

end BoundedVm
