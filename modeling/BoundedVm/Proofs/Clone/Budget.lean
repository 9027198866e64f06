import BoundedVm.Proofs.Clone.Copy
import BoundedVm.Proofs.Heap.Unfolding

/-! # What a clone costs

A bounded clone pays one unit of its budget for every element in the unfolding of the struct, and one
container of the tracker for the struct itself and for every struct in the unfolding. It is refused
exactly if one of the two does not suffice, whatever the order in which they are used up.

* `CloneQueue.ahead`: the items that the loop has still to visit; what they unfold to is what the rest
  of the run costs.
* `Filling.charged`: the loop is refused exactly if the rest of the run costs more than is left.
* `cloneStruct_charged`: the same for the clone of a struct. -/

namespace BoundedVm

/-! ## What is ahead -/

namespace CloneQueue

variable {q rest : CloneQueue} {before : Heap} {todo : List Item}

/-- The structs whose copies are still to be filled. -/
def pending (q : CloneQueue) : List ContainerId :=
  (q.entries.toList.drop q.next).map Prod.snd

/-- The items that the loop visits next, apart from those that it finds below them. -/
def ahead (before : Heap) (todo : List Item) (q : CloneQueue) : List Item :=
  todo ++ q.pending.flatMap fun d => (before.items d).toList

@[simp] theorem ahead_cons (x : Item) :
    q.ahead before (x :: todo) = x :: q.ahead before todo := rfl

theorem pending_of_pop?_eq_none (hq : q.pop? = none) : q.pending = [] := by
  have hle : q.entries.toList.length ≤ q.next := pop?_eq_none_iff.1 hq
  rw [pending, List.drop_of_length_le hle, List.map_nil]

theorem pending_of_pop?_eq_some {copy source : ContainerId}
    (hq : q.pop? = some ((copy, source), rest)) : q.pending = source :: rest.pending := by
  obtain ⟨he, rfl⟩ := pop?_eq_some_iff.1 hq
  obtain ⟨hlt, hget⟩ := Array.getElem?_eq_some_iff.mp he
  have hdrop := List.drop_eq_getElem_cons (show q.next < q.entries.toList.length from hlt)
  rw [pending, hdrop, List.map_cons, Array.getElem_toList, hget]
  rfl

theorem pending_push (hq : q.next ≤ q.entries.size) (copy source : ContainerId) :
    (q.push copy source).pending = q.pending ++ [source] := by
  have hle : q.next ≤ q.entries.toList.length := hq
  simp [pending, push, List.drop_append_of_le_length hle]

/-- When the next copy becomes the current one, the same items are ahead. -/
theorem ahead_of_pop? {copy source : ContainerId} (hq : q.pop? = some ((copy, source), rest)) :
    rest.ahead before (before.items source).toList = q.ahead before [] := by
  simp [ahead, pending_of_pop?_eq_some hq]

/-- A struct that enters the queue puts its elements last. -/
theorem ahead_push (hq : q.next ≤ q.entries.size) (copy source : ContainerId) :
    (q.push copy source).ahead before todo
      = q.ahead before todo ++ (before.items source).toList := by
  simp [ahead, pending_push hq]

end CloneQueue

namespace Heap

/-- The number of elements in the unfolding of a struct. -/
noncomputable def elementCount (h : Heap) (s : ContainerId) : ℕ∞ :=
  h.countBelow (fun _ => True) (.struct s)

/-- The number of structs in the unfolding of a struct, apart from itself. -/
noncomputable def structCount (h : Heap) (s : ContainerId) : ℕ∞ :=
  h.countBelow (fun x => x.isStruct = true) (.struct s)

/-- The number of items that the loop visits if it goes on to the end. -/
noncomputable def visitsAhead (before : Heap) (todo : List Item) (queue : CloneQueue) : ℕ∞ :=
  before.countAll (fun _ => True) (queue.ahead before todo)

/-- The number of copies that the loop makes if it goes on to the end. -/
noncomputable def copiesAhead (before : Heap) (todo : List Item) (queue : CloneQueue) : ℕ∞ :=
  before.countAll (fun x => x.isStruct = true) (queue.ahead before todo)

variable {before : Heap} {todo : List Item} {queue rest : CloneQueue}

/-- A struct that is visited counts itself, and its elements come to lie ahead. -/
theorem countAll_ahead_struct {P : Item → Prop} {source : ContainerId} (hP : P (.struct source))
    (hq : queue.next ≤ queue.entries.size) (copy : ContainerId) :
    before.countAll P (queue.ahead before (.struct source :: todo))
      = 1 + before.countAll P ((queue.push copy source).ahead before todo) := by
  rw [CloneQueue.ahead_cons, countAll_cons, countFrom_of_holds hP, CloneQueue.ahead_push hq,
    countAll_append, children_struct, add_assoc, add_comm (before.countAll P (queue.ahead _ _))]

theorem visitsAhead_leaf {x : Item} (hx : x.isStruct = false) :
    visitsAhead before (x :: todo) queue = 1 + visitsAhead before todo queue := by
  rw [visitsAhead, CloneQueue.ahead_cons, countAll_cons, countFrom_of_holds trivial,
    children_of_isStruct_eq_false hx, countAll_nil, add_zero]
  rfl

theorem copiesAhead_leaf {x : Item} (hx : x.isStruct = false) :
    copiesAhead before (x :: todo) queue = copiesAhead before todo queue := by
  rw [copiesAhead, CloneQueue.ahead_cons, countAll_cons, countFrom_of_not_holds (by simp [hx]),
    children_of_isStruct_eq_false hx, countAll_nil, zero_add]
  rfl

theorem visitsAhead_struct {source : ContainerId} (hq : queue.next ≤ queue.entries.size)
    (copy : ContainerId) :
    visitsAhead before (.struct source :: todo) queue
      = 1 + visitsAhead before todo (queue.push copy source) :=
  countAll_ahead_struct trivial hq copy

theorem copiesAhead_struct {source : ContainerId} (hq : queue.next ≤ queue.entries.size)
    (copy : ContainerId) :
    copiesAhead before (.struct source :: todo) queue
      = 1 + copiesAhead before todo (queue.push copy source) :=
  countAll_ahead_struct (P := fun x => x.isStruct = true) rfl hq copy

/-- Whatever is visited costs one visit at least. -/
theorem one_le_visitsAhead_cons (x : Item) : 1 ≤ visitsAhead before (x :: todo) queue := by
  rw [visitsAhead, CloneQueue.ahead_cons, countAll_cons, countFrom_of_holds trivial, add_assoc]
  exact le_self_add

theorem one_le_copiesAhead_struct (source : ContainerId) :
    1 ≤ copiesAhead before (.struct source :: todo) queue := by
  have hstruct : (Item.struct source).isStruct = true := rfl
  rw [copiesAhead, CloneQueue.ahead_cons, countAll_cons, countFrom_of_holds hstruct, add_assoc]
  exact le_self_add

/-! ## The loop -/

/-- A run with a budget, for a tracker with an account, that would make `visits` visits and `copies`
copies: it is not refused if the budget and the tracker suffice, and then the account shows the copies;
and it is refused for lack of one of them if they do not. -/
def Charged {α : Type} (owner : TrackerId) (account : Tracker) (budget : Nat)
    (visits copies : ℕ∞) : Except ValueFault α × Heap → Prop
  | (.ok _, after) => visits ≤ budget ∧
      ∃ n registry, copies = (n : Nat) ∧ account.live + n ≤ account.limit ∧
        after.tracker? owner = some ⟨account.limit, account.live + n,
          max account.peak (account.live + n), registry⟩
  | (.error e, _) => e.isResourceLimit = true ∧
      ¬ (visits ≤ budget ∧ account.live + copies ≤ account.limit)

section Charged

variable {α : Type} {owner : TrackerId} {account : Tracker} {budget : Nat} {visits copies : ℕ∞}
  {outcome : Except ValueFault α × Heap}

/-- Where a copy has room there is room for one at least. -/
theorem lt_limit_of_le (hcopies : 1 ≤ copies)
    (hroom : account.live + copies ≤ account.limit) : account.live < account.limit := by
  have hone : ((account.live + 1 : Nat) : ℕ∞) ≤ account.limit := by
    refine le_trans ?_ hroom
    rw [Nat.cast_succ]
    exact add_le_add_right hcopies _
  exact_mod_cast hone

/-- A visit costs one unit of the budget. -/
theorem Charged.visit (hrun : Charged owner account budget visits copies outcome) :
    Charged owner account (budget + 1) (1 + visits) copies outcome := by
  obtain ⟨result, after⟩ := outcome
  cases result with
  | ok _ => exact ⟨one_add_le_succ_iff.2 hrun.1, hrun.2⟩
  | error e =>
    refine ⟨hrun.1, fun hboth => hrun.2 ⟨?_, hboth.2⟩⟩
    exact one_add_le_succ_iff.1 hboth.1

/-- A copy costs one container of the tracker. -/
theorem Charged.copy {registry : Array ContainerId}
    (hrun : Charged owner ⟨account.limit, account.live + 1, max account.peak (account.live + 1),
      registry⟩ budget visits copies outcome) :
    Charged owner account budget visits (1 + copies) outcome := by
  obtain ⟨result, after⟩ := outcome
  cases result with
  | ok _ =>
    obtain ⟨hvisits, n, registry, rfl, hlimit, haccount⟩ := hrun
    -- the account after the copy and `n` more is the one after `n + 1`
    have hlive : account.live + 1 + n = account.live + (n + 1) := by omega
    have hpeak : max (max account.peak (account.live + 1)) (account.live + 1 + n)
        = max account.peak (account.live + (n + 1)) := by omega
    refine ⟨hvisits, n + 1, registry, ?_, ?_, ?_⟩
    · rw [Nat.cast_succ, add_comm]
    · rw [← hlive]
      exact hlimit
    · rw [haccount, hpeak, hlive]
  | error e =>
    refine ⟨hrun.1, fun hboth => hrun.2 ⟨hboth.1, ?_⟩⟩
    rw [Nat.cast_succ, add_assoc]
    exact hboth.2

/-- What becomes of the first copy does not change what a run has cost. -/
theorem Charged.endClone {outcome : Except ValueFault Unit × Heap}
    (hrun : Charged owner account budget visits copies outcome) (root : ContainerId) :
    Charged owner account budget visits copies (endClone root outcome) := by
  obtain ⟨result, after⟩ := outcome
  cases result with
  | ok _ => exact hrun
  | error e => exact hrun

end Charged

/-- **The cost of a run.** The loop is refused exactly if what lies ahead costs more visits than the
budget has or more containers than the tracker has room for. -/
theorem Filling.charged {before h : Heap} (hb : before.WellFormed) {s target : ContainerId}
    {owner : TrackerId} {todo : List Item} {queue : CloneQueue}
    (hf : Filling before s owner target todo queue h) {account : Tracker}
    (ht : h.tracker? owner = some account) (hlimit : account.live ≤ account.limit)
    (hpeak : account.live ≤ account.peak) (budget : Nat) :
    Charged owner account budget (visitsAhead before todo queue) (copiesAhead before todo queue)
      (h.fillCopies owner budget target todo queue) := by
  induction budget, target, todo, queue, h using fillCopies_induction owner
    generalizing account with
  | done budget target queue h hq =>
    -- nothing lies ahead
    have hahead : queue.ahead before [] = [] := by
      simp [CloneQueue.ahead, CloneQueue.pending_of_pop?_eq_none hq]
    rw [fillCopies_of_pop?_eq_none hq, visitsAhead, copiesAhead, hahead]
    refine ⟨bot_le, 0, account.registry, rfl, hlimit, ?_⟩
    rw [Nat.add_zero, Nat.max_eq_left hpeak]
    exact ht
  | pop budget target queue h copy source rest hq ih =>
    -- the next copy becomes the current one, and the same items lie ahead
    have hrun := ih (hf.pop hq) ht hlimit hpeak
    rw [hf.items_of_pop? hq, visitsAhead, copiesAhead, CloneQueue.ahead_of_pop? hq] at hrun
    rw [fillCopies_of_pop?_eq_some hq, hf.items_of_pop? hq]
    exact hrun
  | spent target queue h x todo =>
    -- the budget is used up, and the further item would cost a visit
    rw [fillCopies_zero_cons]
    refine ⟨rfl, fun hboth => ?_⟩
    have hone := (one_le_visitsAhead_cons x).trans hboth.1
    simp at hone
  | full budget target todo queue h source e h' hc =>
    -- the tracker is full, and there is a further struct
    have hfull : account.limit ≤ account.live := by
      by_contra hroom
      rw [create_of_lt ht (Nat.lt_of_not_le hroom)] at hc
      simp at hc
    have hfault : e = .tooManyContainers account.limit := by
      rw [create_of_le ht hfull] at hc
      exact (Except.error.inj (Prod.mk.inj hc).1).symm
    rw [fillCopies_of_create_eq_error hc, hfault]
    refine ⟨rfl, fun hboth => ?_⟩
    exact Nat.not_lt.mpr hfull (lt_limit_of_le (one_le_copiesAhead_struct source) hboth.2)
  | struct budget target todo queue h source copy h' hc ih =>
    -- the copy costs a container now, and its elements come to lie ahead
    obtain ⟨⟨account', ht', hroom⟩, rfl, rfl⟩ := create_eq_ok_iff.1 hc
    obtain rfl : account = account' := Option.some.inj (ht.symm.trans ht')
    obtain ⟨registry, hregistered⟩ := exists_tracker?_enroll ht #[]
    have hrun := ih (hf.struct hb hc) ((tracker?_push _ _ _).trans hregistered) hroom
      (Nat.le_max_right _ _)
    rw [fillCopies_of_create_eq_ok hc, visitsAhead_struct hf.next_le h.created,
      copiesAhead_struct hf.next_le h.created]
    exact hrun.copy.visit
  | leaf budget target todo queue h x hx ih =>
    -- a leaf costs a visit and no container
    have hrun := ih (hf.leaf hx) (by simpa using ht) hlimit hpeak
    rw [fillCopies_leaf hx, visitsAhead_leaf hx, copiesAhead_leaf hx]
    exact hrun.visit

/-! ## The number of visits -/

/-- `fillCopies` with the number of items that it visits, the one at which it is refused included. -/
def fillCopiesCounted (owner : TrackerId) (budget : Nat) (target : ContainerId) (todo : List Item)
    (queue : CloneQueue) (h : Heap) : (Except ValueFault Unit × Heap) × Nat :=
  match todo with
  | [] =>
    match _ : queue.pop? with
    | none => ((.ok (), h), 0)
    | some ((copy, source), rest) =>
      fillCopiesCounted owner budget copy (h.items source).toList rest h
  | x :: todo =>
    match budget with
    -- the item is looked at, and there is no budget for it
    | 0 => ((.error .cloneTooLarge, h), 1)
    | budget + 1 =>
      match x with
      | .struct source =>
        match h.create owner #[] with
        | (.error e, h) => ((.error e, h), 1)
        | (.ok copy, h) =>
          let run := fillCopiesCounted owner budget target todo (queue.push copy source)
            (h.push target (.struct copy))
          (run.1, run.2 + 1)
      | x =>
        let run := fillCopiesCounted owner budget target todo queue ((h.share 1 x).push target x)
        (run.1, run.2 + 1)
termination_by (budget, queue.size)
decreasing_by
  · exact Prod.Lex.right _ (CloneQueue.size_of_pop? (by assumption))
  · exact Prod.Lex.left _ _ (Nat.lt_succ_self _)
  · exact Prod.Lex.left _ _ (Nat.lt_succ_self _)

/-- Counting does not change the run, and a run visits one item more than the budget has at most. -/
theorem fillCopiesCounted_spec (owner : TrackerId) (budget : Nat) (target : ContainerId)
    (todo : List Item) (queue : CloneQueue) (h : Heap) :
    (h.fillCopiesCounted owner budget target todo queue).1
        = h.fillCopies owner budget target todo queue ∧
      (h.fillCopiesCounted owner budget target todo queue).2 ≤ budget + 1 := by
  induction budget, target, todo, queue, h using fillCopies_induction owner with
  | done budget target queue h hq =>
    rw [fillCopies_of_pop?_eq_none hq, fillCopiesCounted]
    split
    · exact ⟨rfl, Nat.zero_le _⟩
    · simp_all
  | pop budget target queue h copy source rest hq ih =>
    rw [fillCopies_of_pop?_eq_some hq, fillCopiesCounted]
    split
    · simp_all
    · rename_i hq'
      cases hq.symm.trans hq'
      exact ih
  | spent target queue h x todo =>
    rw [fillCopies_zero_cons, fillCopiesCounted]
    exact ⟨rfl, Nat.le_refl 1⟩
  | full budget target todo queue h source e h' hc =>
    rw [fillCopies_of_create_eq_error hc, fillCopiesCounted, hc]
    exact ⟨rfl, Nat.le_add_left 1 (budget + 1)⟩
  | struct budget target todo queue h source copy h' hc ih =>
    rw [fillCopies_of_create_eq_ok hc, fillCopiesCounted, hc]
    exact ⟨ih.1, Nat.succ_le_succ ih.2⟩
  | leaf budget target todo queue h x hx ih =>
    rw [fillCopies_leaf hx, fillCopiesCounted]
    · exact ⟨ih.1, Nat.succ_le_succ ih.2⟩
    · exact Item.isStruct_eq_false_iff.1 hx

/-! ## The clone of a struct -/

variable {h : Heap} {s : ContainerId} {limits : Limits} {account : Tracker}

theorem one_le_maxStackSize (hl : limits.validate = .ok limits) :
    1 ≤ limits.maxStackSize.toNat := by
  have hne : limits.maxStackSize ≠ 0 := by
    intro hzero
    simp [Limits.validate, hzero] at hl
  rw [Nat.one_le_iff_ne_zero]
  exact fun hzero => hne (UInt32.toNat_inj.mp hzero)

/-- `cloneStruct` with the number of elements that it visits. -/
def cloneStructCounted (s : ContainerId) (limits : Limits) (h : Heap) :
    (Except ValueFault ContainerId × Heap) × Nat :=
  match h.create (h.owner s) #[] with
  | (.error e, h) => ((.error e, h), 0)
  | (.ok root, h) =>
    let run := h.fillCopiesCounted (h.owner s) (limits.maxStackSize.toNat - 1) root
      (h.items s).toList .empty
    (endClone root run.1, run.2)

/-- Counting does not change the clone, and a clone visits as many elements as the stack size says at
most. -/
theorem cloneStructCounted_spec (h : Heap) (s : ContainerId) (hl : limits.validate = .ok limits) :
    (h.cloneStructCounted s limits).1 = h.cloneStruct s limits ∧
      (h.cloneStructCounted s limits).2 ≤ limits.maxStackSize.toNat := by
  unfold cloneStructCounted cloneStruct
  cases h.create (h.owner s) #[] with
  | mk result h' =>
    cases result with
    | error e => exact ⟨rfl, Nat.zero_le _⟩
    | ok root =>
      obtain ⟨hrun, hvisits⟩ := h'.fillCopiesCounted_spec (h'.owner s)
        (limits.maxStackSize.toNat - 1) root (h'.items s).toList .empty
      rw [Nat.sub_add_cancel (one_le_maxStackSize hl)] at hvisits
      exact ⟨congrArg (endClone root) hrun, hvisits⟩

/-- The clone of a struct costs a visit and a copy for the struct itself beside what its unfolding
costs. -/
theorem cloneStruct_charged (hh : h.WellFormed) (hs : s < h.created)
    (hl : limits.validate = .ok limits) (ht : h.tracker? (h.owner s) = some account) :
    Charged (h.owner s) account limits.maxStackSize.toNat (1 + h.elementCount s)
      (1 + h.structCount s) (h.cloneStruct s limits) := by
  by_cases hroom : account.live < account.limit
  · obtain ⟨registry, hregistered⟩ := exists_tracker?_enroll ht #[]
    have hrun := (Filling.start hs).charged hh hregistered hroom (Nat.le_max_right _ _)
      (limits.maxStackSize.toNat - 1)
    -- the copy of the struct itself is made before the loop and is paid for like the others
    have hcost := hrun.copy.visit
    have hahead : CloneQueue.empty.ahead h (h.items s).toList = h.children (.struct s) := by
      simp [CloneQueue.ahead, CloneQueue.pending, CloneQueue.empty]
    rw [Nat.sub_add_cancel (one_le_maxStackSize hl), visitsAhead, copiesAhead, hahead,
      ← countBelow_eq, ← countBelow_eq] at hcost
    rw [cloneStruct_of_create_eq_ok hs (create_of_lt ht hroom #[])]
    exact hcost.endClone h.created
  · -- there is no room for the copy of the struct itself
    rw [cloneStruct, create_of_le ht (Nat.le_of_not_lt hroom)]
    exact ⟨rfl, fun hboth => hroom (lt_limit_of_le le_self_add hboth.2)⟩

end Heap

end BoundedVm
