import BoundedVm.Proofs.Comparison.Pruning

/-! # The loop of a comparison

`Heap.compareStacks` is a loop. At its head stand the budget and the two stacks, and a turn takes one pair
off, pays for it and puts what is to be compared instead on the stacks. The stacks grow by the elements of
different structs, each is cut apart from the other, and the loop does not look whether they still agree.

* `CompareLoop.turn`: one turn, and `compareStacks_eq_turn`: the loop takes turn after turn.
* `CompareLoop.InStep`: the stacks are of one height, within the reach of the budget.
* `CompareLoop.InStep.turn`: a turn keeps this.
* `compareStruct_inStep`: it holds at every head of the loop, on every heap, and the loop ends. -/

namespace BoundedVm

/-- The head of the loop of a comparison: the budget that is left, and the stacks of pending items. -/
structure CompareLoop where
  budget : Nat
  left : Array Item
  right : Array Item

namespace CompareLoop

/-- What one turn of the loop comes to. -/
inductive Turn where
  | ends (result : Except ValueFault Bool)
  | goesOn (next : CompareLoop)

/-- The head after a pair of structs has been taken off: their elements have been put on the stacks, of
each no more than the budget reaches, and then the bottoms of both have been dropped as far as the left
one was too high. -/
def expand (budget : Nat) (left right xs ys : Array Item) : CompareLoop :=
  let left := left ++ Heap.lastItems (budget + 1) xs
  let right := right ++ Heap.lastItems (budget + 1) ys
  let excess := left.size - (budget + 1)
  ⟨budget, Heap.dropBottom excess left, Heap.dropBottom excess right⟩

/-- One turn of the loop. -/
def turn (h : Heap) (limits : Limits) (w : CompareLoop) : Turn :=
  match w.left.back? with
  | none => .ends (.ok true)
  | some a =>
    match w.budget with
    | 0 => .ends (.error .comparisonTooLarge)
    | budget + 1 =>
      match w.right.back? with
      | none => .ends (.ok false)
      | some b =>
        match h.pairStep limits a b with
        | .equal => .goesOn ⟨budget, w.left.pop, w.right.pop⟩
        | .descend s t => .goesOn (expand budget w.left.pop w.right.pop (h.items s) (h.items t))
        | .differ => .ends (.ok false)
        | .refuse e => .ends (.error e)

/-- The loop at its first head, for two structs. -/
def start (limits : Limits) (s t : ContainerId) : CompareLoop :=
  ⟨limits.maxStackSize.toNat, #[.struct s], #[.struct t]⟩

/-- The heads of the loop that begins at one of them, each with the number of turns before it. -/
inductive Reaches (h : Heap) (limits : Limits) (first : CompareLoop) : Nat → CompareLoop → Prop
  | refl : Reaches h limits first 0 first
  | next {n : Nat} {w next : CompareLoop} (hr : Reaches h limits first n w)
    (hturn : w.turn h limits = .goesOn next) : Reaches h limits first (n + 1) next

/-- The number of pairs taken off by a loop that ends at a head after `n` turns: one in each turn, and one
more at the last head unless nothing is pending there. -/
def pops (n : Nat) (w : CompareLoop) : Nat :=
  if w.left.isEmpty then n else n + 1

/-- The stacks are of one height, and no more is pending than the budget reaches, but for one pair. -/
structure InStep (w : CompareLoop) : Prop where
  size_eq : w.left.size = w.right.size
  size_le : w.left.size ≤ w.budget + 1

variable {h : Heap} {limits : Limits} {w next first : CompareLoop} {n : Nat}

/-! ## One turn -/

/-- The loop takes turn after turn. -/
theorem compareStacks_eq_turn (h : Heap) (limits : Limits) (w : CompareLoop) :
    h.compareStacks limits w.budget w.left w.right
      = match w.turn h limits with
        | .ends result => result
        | .goesOn next => h.compareStacks limits next.budget next.left next.right := by
  obtain ⟨budget, left, right⟩ := w
  unfold turn
  rw [Heap.compareStacks.eq_def]
  cases left.back? with
  | none => rfl
  | some a =>
    cases budget with
    | zero => rfl
    | succ budget =>
      cases right.back? with
      | none => rfl
      | some b => cases hab : h.pairStep limits a b <;> simp only [hab, expand]

/-- What a turn does that goes on: it takes a pair off the stacks and pays for it, and then the pair is
equal, or the elements of two structs of equal length are put on the stacks. -/
theorem cases_of_turn_eq_goesOn (hturn : w.turn h limits = .goesOn next) :
    w.left ≠ #[] ∧ w.budget = next.budget + 1 ∧
      (next = ⟨next.budget, w.left.pop, w.right.pop⟩ ∨
        ∃ s t, (h.items s).size = (h.items t).size ∧
          next = expand next.budget w.left.pop w.right.pop (h.items s) (h.items t)) := by
  obtain ⟨budget, left, right⟩ := w
  unfold turn at hturn
  cases ha : left.back? with
  | none => simp [ha] at hturn
  | some a =>
    have hne : left ≠ #[] := by
      rintro rfl
      cases ha
    cases budget with
    | zero => simp [ha] at hturn
    | succ budget =>
      cases hb : right.back? with
      | none => simp [ha, hb] at hturn
      | some b =>
        simp only [ha, hb] at hturn
        cases hab : h.pairStep limits a b with
        | equal =>
          rw [hab] at hturn
          cases hturn
          exact ⟨hne, rfl, .inl rfl⟩
        | descend s t =>
          rw [hab] at hturn
          cases hturn
          exact ⟨hne, rfl, .inr ⟨s, t, Heap.size_eq_of_pairStep_eq_descend hab, rfl⟩⟩
        | differ =>
          rw [hab] at hturn
          cases hturn
        | refuse e =>
          rw [hab] at hturn
          cases hturn

/-- Stacks of one height grow by structs of equal length to stacks of one height within the reach. -/
theorem inStep_expand {left right xs ys : Array Item} (hsize : left.size = right.size)
    (hxy : xs.size = ys.size) (budget : Nat) : (expand budget left right xs ys).InStep := by
  have hgrown : (right ++ Heap.lastItems (budget + 1) ys).size
      = (left ++ Heap.lastItems (budget + 1) xs).size := by
    simp [Heap.lastItems, hsize, hxy]
  constructor
  · simp only [expand, Heap.size_dropBottom, hgrown]
  · simp only [expand, Heap.size_dropBottom]
    omega

/-- **A turn keeps the stacks in step.** It pays one unit of the budget, and the stacks keep one height,
within the reach of what is left. -/
theorem InStep.turn (hw : w.InStep) (hturn : w.turn h limits = .goesOn next) : next.InStep := by
  obtain ⟨hne, hbudget, hnext | ⟨s, t, hst, hnext⟩⟩ := cases_of_turn_eq_goesOn hturn
  · have hle := hw.size_le
    rw [hnext]
    constructor
    · simp only [Array.size_pop, hw.size_eq]
    · simp only [Array.size_pop]
      omega
  · rw [hnext]
    refine inStep_expand ?_ hst _
    rw [Array.size_pop, Array.size_pop, hw.size_eq]

/-- On stacks in step the right one has an item for each item of the left one. -/
theorem InStep.exists_back? (hw : w.InStep) {a : Item} (ha : w.left.back? = some a) :
    ∃ b, w.right.back? = some b := by
  cases hb : w.right.back? with
  | some b => exact ⟨b, rfl⟩
  | none =>
    have hright : w.right = #[] := Array.back?_eq_none_iff.mp hb
    have hleft : w.left = #[] := by
      rw [← Array.size_eq_zero_iff, hw.size_eq, hright]
      rfl
    rw [hleft] at ha
    cases ha

/-! ## The loop -/

theorem inStep_start (limits : Limits) (s t : ContainerId) : (start limits s t).InStep :=
  ⟨rfl, Nat.le_add_left 1 _⟩

theorem Reaches.inStep (hr : Reaches h limits first n w) (hfirst : first.InStep) : w.InStep := by
  induction hr with
  | refl => exact hfirst
  | next _ hturn ih => exact ih.turn hturn

/-- Each turn has paid one unit. -/
theorem Reaches.add_budget (hr : Reaches h limits first n w) : n + w.budget = first.budget := by
  induction hr with
  | refl => exact Nat.zero_add _
  | next _ hturn ih =>
    obtain ⟨-, hbudget, -⟩ := cases_of_turn_eq_goesOn hturn
    omega

/-- The result is that of the loop which goes on from any head. -/
theorem Reaches.compareStacks_eq (hr : Reaches h limits first n w) :
    h.compareStacks limits w.budget w.left w.right
      = h.compareStacks limits first.budget first.left first.right := by
  induction hr with
  | refl => rfl
  | next _ hturn ih =>
    rw [compareStacks_eq_turn, hturn] at ih
    exact ih

/-- The loop ends, since the budget gets smaller at each turn. -/
theorem Reaches.exists_ends (hr : Reaches h limits first n w) :
    ∃ m last result, Reaches h limits first m last ∧ last.turn h limits = .ends result := by
  induction hbudget : w.budget generalizing n w with
  | zero =>
    cases hturn : w.turn h limits with
    | ends result => exact ⟨n, w, result, hr, hturn⟩
    | goesOn next =>
      obtain ⟨-, hpaid, -⟩ := cases_of_turn_eq_goesOn hturn
      omega
  | succ budget ih =>
    cases hturn : w.turn h limits with
    | ends result => exact ⟨n, w, result, hr, hturn⟩
    | goesOn next =>
      obtain ⟨-, hpaid, -⟩ := cases_of_turn_eq_goesOn hturn
      exact ih (hr.next hturn) (by omega)

end CompareLoop

namespace Heap

open CompareLoop

/-- **The loop of a comparison keeps its stacks in step and ends.** At every head of the loop for two
structs the stacks are of one height and no higher than the budget left and one pair more, so that no more
pairs than the stack size and one are ever pending there, and the right stack has an item to take off
whenever the left one has. A turn that goes on pays one unit. So the loop ends, with the result of the
comparison, before it has taken off more pairs than the stack size and one. -/
theorem compareStruct_inStep (h : Heap) (limits : Limits) (s t : ContainerId) :
    (∀ n w, Reaches h limits (start limits s t) n w →
      w.InStep ∧ w.left.size ≤ limits.maxStackSize.toNat + 1 ∧
      (∀ a, w.left.back? = some a → ∃ b, w.right.back? = some b) ∧
      (∀ next, w.turn h limits = .goesOn next → next.budget + 1 = w.budget) ∧
      ∀ result, w.turn h limits = .ends result →
        result = h.compareStruct limits s (.struct t) ∧
          w.pops n ≤ limits.maxStackSize.toNat + 1) ∧
    ∃ n w, Reaches h limits (start limits s t) n w ∧
      w.turn h limits = .ends (h.compareStruct limits s (.struct t)) := by
  have hresult : ∀ {n w result}, Reaches h limits (start limits s t) n w →
      w.turn h limits = .ends result → result = h.compareStruct limits s (.struct t) := by
    intro n w result hr hends
    have heq := hr.compareStacks_eq
    rw [compareStacks_eq_turn, hends] at heq
    exact heq
  constructor
  · intro n w hr
    have hw : w.InStep := hr.inStep (inStep_start limits s t)
    have hpaid : n + w.budget = limits.maxStackSize.toNat := hr.add_budget
    have hle := hw.size_le
    refine ⟨hw, by omega, fun a ha => hw.exists_back? ha, fun next hturn => ?_,
      fun result hends => ⟨hresult hr hends, ?_⟩⟩
    · obtain ⟨-, hbudget, -⟩ := cases_of_turn_eq_goesOn hturn
      exact hbudget.symm
    · unfold pops
      split <;> omega
  · obtain ⟨n, w, result, hr, hends⟩ := (@Reaches.refl h limits (start limits s t)).exists_ends
    rw [hresult hr hends] at hends
    exact ⟨n, w, hr, hends⟩

end Heap

end BoundedVm
