import BoundedVm.Heap.Clone
import BoundedVm.Proofs.Heap.WellFormed
import Mathlib.Data.List.Forall2

/-! # A clone in progress

`Filling` is the invariant of the loop that fills copies: which containers are copies of which structs,
which of them are finished, how much of the current one is left, and that nothing else has changed. The
copies are numbered from the number of containers that there were before, in the order in which their
sources entered the queue, so that the queue alone says what each copy is a copy of.

* `Filling.start`: the invariant holds when the copy of the struct itself has been made.
* `Filling.pop`, `Filling.leaf`, `Filling.struct`: each turn of the loop keeps it.
* `Filling.fillCopies`: a run of the loop keeps it, and ends with an empty queue if it is not
  refused. -/

namespace BoundedVm

/-! ## The queue -/

namespace CloneQueue

variable {q rest : CloneQueue}

/-- The structs that copies were made of, in the order of the copies; the struct that is cloned is the
first. -/
def sources (s : ContainerId) (q : CloneQueue) : List ContainerId :=
  s :: q.entries.toList.map Prod.snd

/-- What is still missing from the copy with a place in the order, given what is missing from the
current one and what the source holds. -/
def missing (q : CloneQueue) (todo : List Item) (i : Nat) (items : List Item) : List Item :=
  if i < q.next then [] else if i = q.next then todo else items

@[simp] theorem sources_empty (s : ContainerId) : sources s .empty = [s] := rfl

@[simp] theorem sources_push (s copy source : ContainerId) :
    sources s (q.push copy source) = sources s q ++ [source] := by
  simp [sources, push]

@[simp] theorem next_push (copy source : ContainerId) : (q.push copy source).next = q.next := rfl

@[simp] theorem missing_push (copy source : ContainerId) :
    (q.push copy source).missing = q.missing := rfl

theorem length_sources (s : ContainerId) : (sources s q).length = q.entries.size + 1 := by
  simp [sources]

theorem pop?_eq_none_iff : q.pop? = none ↔ q.entries.size ≤ q.next := by
  simp [pop?]

theorem pop?_eq_some_iff {entry : ContainerId × ContainerId} :
    q.pop? = some (entry, rest)
      ↔ q.entries[q.next]? = some entry ∧ rest = { q with next := q.next + 1 } := by
  simp only [pop?, Option.map_eq_some_iff, Prod.mk.injEq]
  constructor
  · rintro ⟨_, he, rfl, rfl⟩
    exact ⟨he, rfl⟩
  · rintro ⟨he, rfl⟩
    exact ⟨entry, he, rfl, rfl⟩

theorem missing_of_lt {todo items : List Item} {i : Nat} (hi : i < q.next) :
    q.missing todo i items = [] :=
  if_pos hi

@[simp] theorem missing_next (todo items : List Item) : q.missing todo q.next items = todo := by
  simp [missing]

theorem missing_of_ne {todo other items : List Item} {i : Nat} (hi : i ≠ q.next) :
    q.missing todo i items = q.missing other i items := by
  simp [missing, hi]

theorem missing_of_gt {todo items : List Item} {i : Nat} (hi : q.next < i) :
    q.missing todo i items = items := by
  rw [missing, if_neg (Nat.lt_asymm hi), if_neg (Nat.ne_of_gt hi)]

end CloneQueue

/-! ## Elements of copies -/

/-- What stands in a copy for an item of the source: a leaf itself, and for a struct a copy of it. -/
inductive Mirrors (first : ContainerId) (sources : List ContainerId) : Item → Item → Prop
  | leaf {x : Item} (hx : x.isStruct = false) : Mirrors first sources x x
  | copy {d : ContainerId} {i : Nat} (hd : sources[i]? = some d) :
    Mirrors first sources (.struct d) (.struct (first + i))

namespace Mirrors

variable {first : ContainerId} {sources : List ContainerId} {x y : Item}

/-- Further copies leave the earlier ones where they are. -/
theorem append (hxy : Mirrors first sources x y) (more : List ContainerId) :
    Mirrors first (sources ++ more) x y := by
  cases hxy with
  | leaf hx => exact .leaf hx
  | copy hd =>
    refine .copy ?_
    rw [List.getElem?_append_left (List.getElem?_eq_some_iff.mp hd).1]
    exact hd

/-- A struct that stands in a copy is a copy. -/
theorem exists_of_struct {c : ContainerId} (hxc : Mirrors first sources x (.struct c)) :
    ∃ i, i < sources.length ∧ c = first + i := by
  cases hxc with
  | leaf hx => simp [Item.isStruct] at hx
  | copy hd => exact ⟨_, (List.getElem?_eq_some_iff.mp hd).1, rfl⟩

end Mirrors

namespace Heap

/-! ## The invariant -/

/-- The state of the loop that fills copies: `queue` says what was copied, `target` is the current copy
and lacks `todo`, and all that existed `before` is as it was. -/
structure Filling (before : Heap) (s : ContainerId) (owner : TrackerId) (target : ContainerId)
    (todo : List Item) (queue : CloneQueue) (h : Heap) : Prop where
  next_lt : queue.next < (queue.sources s).length
  target_eq : target = before.created + queue.next
  /-- Copies enter the queue in the order of their numbers. -/
  entry_eq : ∀ {i : Nat} {copy source : ContainerId},
    queue.entries[i]? = some (copy, source) → copy = before.created + (i + 1)
  /-- Only what existed before is copied, no copy. -/
  source_lt : ∀ d ∈ queue.sources s, d < before.created
  created_eq : h.created = before.created + (queue.sources s).length
  alive_old : ∀ {c : ContainerId}, c < before.created → h.alive c = before.alive c
  items_old : ∀ {c : ContainerId}, c < before.created → h.items c = before.items c
  alive_copy : ∀ {i : Nat}, i < (queue.sources s).length → h.alive (before.created + i) = true
  owner_copy : ∀ {i : Nat}, i < (queue.sources s).length → h.owner (before.created + i) = owner
  /-- What a copy holds mirrors what its source holds, apart from what is missing. -/
  contents : ∀ {i : Nat} {d : ContainerId}, (queue.sources s)[i]? = some d →
    ∃ done, (before.items d).toList = done ++ queue.missing todo i (before.items d).toList ∧
      List.Forall₂ (Mirrors before.created (queue.sources s)) done
        (h.items (before.created + i)).toList
  /-- The first copy is an element of no copy. -/
  root_unshared : ∀ i k : Nat,
    (h.items (before.created + i))[k]? ≠ some (.struct before.created)
  /-- A copy is an element of one other copy only, and there at one index only. -/
  parent_unique : ∀ (i j k l : Nat) (d : ContainerId),
    (h.items (before.created + i))[k]? = some (.struct d) →
    (h.items (before.created + j))[l]? = some (.struct d) → i = j ∧ k = l

namespace Filling

variable {before h : Heap} {s target : ContainerId} {owner : TrackerId} {todo : List Item}
  {queue : CloneQueue}

/-- What a copy holds so far mirrors the first elements of its source. -/
theorem exists_mirrors (hf : Filling before s owner target todo queue h) {i k : Nat} {y : Item}
    (hy : (h.items (before.created + i))[k]? = some y) :
    ∃ x, Mirrors before.created (queue.sources s) x y := by
  by_cases hi : i < (queue.sources s).length
  · obtain ⟨done, -, hdone⟩ := hf.contents (List.getElem?_eq_getElem hi)
    obtain ⟨hk, rfl⟩ := Array.getElem?_eq_some_iff.mp hy
    have hk' : k < done.length := by simpa [hdone.length_eq] using hk
    exact ⟨done[k], hdone.get hk' hk⟩
  · -- beyond the copies nothing exists
    have hdead : h.alive (before.created + i) = false :=
      not_alive_of_created_le (by rw [hf.created_eq]; omega)
    rw [items_of_not_alive hdead] at hy
    simp at hy

/-- The structs that copies hold are copies. -/
theorem exists_of_struct (hf : Filling before s owner target todo queue h) {i k : Nat}
    {d : ContainerId} (hd : (h.items (before.created + i))[k]? = some (.struct d)) :
    ∃ j, j < (queue.sources s).length ∧ d = before.created + j :=
  let ⟨_, hx⟩ := hf.exists_mirrors hd
  hx.exists_of_struct

theorem next_le (hf : Filling before s owner target todo queue h) :
    queue.next ≤ queue.entries.size := by
  have hlt := hf.next_lt
  rw [CloneQueue.length_sources] at hlt
  exact Nat.le_of_lt_succ hlt

/-- The current copy exists. -/
theorem alive_target (hf : Filling before s owner target todo queue h) :
    h.alive target = true := by
  rw [hf.target_eq]
  exact hf.alive_copy hf.next_lt

/-! ## The turns of the loop -/

/-- At first there is an empty copy of the struct that is cloned. -/
theorem start (hs : s < before.created) :
    Filling before s owner before.created (before.items s).toList .empty
      (before.enroll owner #[]) := by
  have hcopy : ∀ {i : Nat}, i < (CloneQueue.empty.sources s).length → i = 0 := by
    intro i hi
    simpa using hi
  have hitems : ∀ i, (before.enroll owner #[]).items (before.created + i) = #[] := by
    intro i
    rw [items_enroll_empty]
    exact items_of_not_alive (not_alive_of_created_le (Nat.le_add_right _ _))
  constructor
  case next_lt => exact Nat.zero_lt_succ 0
  case target_eq => rfl
  case entry_eq => simp [CloneQueue.empty]
  case source_lt => simpa using hs
  case created_eq => simp
  case alive_old =>
    intro c hc
    simp [alive_enroll, Nat.ne_of_lt hc]
  case items_old =>
    intro c hc
    rw [items_enroll_empty]
  case alive_copy =>
    intro i hi
    simp [alive_enroll, hcopy hi]
  case owner_copy =>
    intro i hi
    simp [owner_enroll, hcopy hi]
  case contents =>
    -- the only copy is the current one, and it lacks everything
    intro i d hd
    obtain rfl := hcopy (List.getElem?_eq_some_iff.mp hd).1
    obtain rfl : s = d := by simpa using hd
    refine ⟨[], ?_, ?_⟩
    · exact (CloneQueue.empty.missing_next _ []).symm
    · rw [hitems]
      exact .nil
  case root_unshared =>
    intro i k
    simp [hitems]
  case parent_unique =>
    intro i j k l d hi
    rw [hitems] at hi
    simp at hi

/-- The source of the next copy is as it was before. -/
theorem items_of_pop? (hf : Filling before s owner target todo queue h)
    {copy source : ContainerId} {rest : CloneQueue}
    (hq : queue.pop? = some ((copy, source), rest)) : h.items source = before.items source := by
  obtain ⟨he, -⟩ := CloneQueue.pop?_eq_some_iff.1 hq
  have hsource : (queue.sources s)[queue.next + 1]? = some source := by
    simp [CloneQueue.sources, he]
  exact hf.items_old (hf.source_lt source (List.mem_of_getElem? hsource))

/-- The next copy becomes the current one. -/
theorem pop (hf : Filling before s owner target [] queue h) {copy source : ContainerId}
    {rest : CloneQueue} (hq : queue.pop? = some ((copy, source), rest)) :
    Filling before s owner copy (h.items source).toList rest h := by
  have hold : h.items source = before.items source := hf.items_of_pop? hq
  obtain ⟨he, rfl⟩ := CloneQueue.pop?_eq_some_iff.1 hq
  have hsource : (queue.sources s)[queue.next + 1]? = some source := by
    simp [CloneQueue.sources, he]
  refine
    { hf with
      next_lt := (List.getElem?_eq_some_iff.mp hsource).1
      target_eq := hf.entry_eq he
      contents := ?_ }
  intro i d hd
  obtain ⟨done, hdone, hmirrors⟩ := hf.contents hd
  refine ⟨done, ?_, hmirrors⟩
  -- nothing is missing from the copy that was current, and everything from the one that becomes so
  have hmissing : CloneQueue.missing { queue with next := queue.next + 1 } (h.items source).toList i
      (before.items d).toList = queue.missing [] i (before.items d).toList := by
    rcases Nat.lt_trichotomy i (queue.next + 1) with hi | rfl | hi
    · rw [CloneQueue.missing_of_lt hi]
      rcases Nat.lt_or_eq_of_le (Nat.le_of_lt_succ hi) with hi | rfl
      · rw [CloneQueue.missing_of_lt hi]
      · rw [CloneQueue.missing_next]
    · obtain rfl : source = d := Option.some.inj (hsource.symm.trans hd)
      rw [CloneQueue.missing_of_gt (Nat.lt_succ_self _), hold]
      exact CloneQueue.missing_next _ _
    · rw [CloneQueue.missing_of_gt hi, CloneQueue.missing_of_gt (Nat.lt_of_succ_lt hi)]
  exact hdone.trans (congrArg (done ++ ·) hmissing.symm)

/-- A further handle changes nothing that matters. -/
theorem share (hf : Filling before s owner target todo queue h) (n : Nat) (x : Item) :
    Filling before s owner target todo queue (h.share n x) :=
  { hf with
    created_eq := by rw [created_share, hf.created_eq]
    alive_old := fun hc => by rw [alive_share, hf.alive_old hc]
    items_old := fun hc => by rw [items_share, hf.items_old hc]
    alive_copy := fun hi => by rw [alive_share, hf.alive_copy hi]
    owner_copy := fun hi => by rw [owner_share, hf.owner_copy hi]
    contents := fun hd => by simpa only [items_share] using hf.contents hd
    root_unshared := by simpa only [items_share] using hf.root_unshared
    parent_unique := by simpa only [items_share] using hf.parent_unique }

/-- An empty copy of a struct that existed before enters the queue. -/
theorem enroll (hf : Filling before s owner target todo queue h) {source : ContainerId}
    (hsource : source < before.created) :
    Filling before s owner target todo (queue.push h.created source) (h.enroll owner #[]) := by
  have hlen : ((queue.push h.created source).sources s).length = (queue.sources s).length + 1 := by
    simp
  have hcreated : h.created = before.created + (queue.sources s).length := hf.created_eq
  have hcopy : ∀ {i : Nat}, i < (queue.sources s).length → before.created + i ≠ h.created := by
    intro i hi
    omega
  constructor
  case target_eq => exact hf.target_eq
  case next_lt =>
    rw [CloneQueue.next_push, hlen]
    exact Nat.lt_succ_of_lt hf.next_lt
  case entry_eq =>
    intro i copy d he
    rw [CloneQueue.push, Array.getElem?_push] at he
    split at he
    · -- the new entry is the last one, and its copy has the next number
      rename_i hi
      cases he
      rw [hcreated, CloneQueue.length_sources, hi]
    · exact hf.entry_eq he
  case source_lt =>
    intro d hd
    rw [CloneQueue.sources_push, List.mem_append, List.mem_singleton] at hd
    rcases hd with hd | rfl
    · exact hf.source_lt d hd
    · exact hsource
  case created_eq =>
    rw [created_enroll, hlen, hcreated, Nat.add_assoc]
  case alive_old =>
    intro c hc
    have hne : c ≠ h.created := Nat.ne_of_lt (hcreated ▸ Nat.lt_add_right _ hc)
    rw [alive_enroll, ← hf.alive_old hc]
    simp [hne]
  case items_old =>
    intro c hc
    rw [items_enroll_empty, hf.items_old hc]
  case alive_copy =>
    intro i hi
    rw [alive_enroll]
    rcases Nat.lt_or_eq_of_le (Nat.le_of_lt_succ (hlen ▸ hi)) with hi | rfl
    · simp [hf.alive_copy hi]
    · simp [hcreated]
  case owner_copy =>
    intro i hi
    rw [owner_enroll]
    rcases Nat.lt_or_eq_of_le (Nat.le_of_lt_succ (hlen ▸ hi)) with hi | rfl
    · rw [if_neg (hcopy hi), hf.owner_copy hi]
    · rw [if_pos hcreated.symm]
  case contents =>
    intro i d hd
    rw [CloneQueue.sources_push] at hd ⊢
    rw [items_enroll_empty, CloneQueue.missing_push]
    by_cases hi : i < (queue.sources s).length
    · -- the earlier copies are as they were
      rw [List.getElem?_append_left hi] at hd
      obtain ⟨done, hdone, hmirrors⟩ := hf.contents hd
      exact ⟨done, hdone, hmirrors.imp fun _ _ hxy => hxy.append _⟩
    · -- everything is missing from the new copy
      have hi' : i = (queue.sources s).length := by
        have := (List.getElem?_eq_some_iff.mp hd).1
        simp only [List.length_append, List.length_singleton] at this
        omega
      subst hi'
      refine ⟨[], (CloneQueue.missing_of_gt hf.next_lt).symm, ?_⟩
      rw [← hcreated, items_of_not_alive (not_alive_of_created_le (Nat.le_refl _))]
      exact .nil
  case root_unshared =>
    simpa only [items_enroll_empty] using hf.root_unshared
  case parent_unique =>
    simpa only [items_enroll_empty] using hf.parent_unique

/-- The current copy takes what mirrors the next element of its source. -/
theorem append {x y : Item} (hf : Filling before s owner target (x :: todo) queue h)
    (hxy : Mirrors before.created (queue.sources s) x y) (hroot : y ≠ .struct before.created)
    (hnew : ∀ d, y = .struct d → ∀ i k : Nat, (h.items (before.created + i))[k]? ≠ some y) :
    Filling before s owner target todo queue (h.push target y) := by
  have halive := hf.alive_target
  have hnext : ∀ {i : Nat}, before.created + i = target ↔ i = queue.next := by
    intro i
    rw [hf.target_eq]
    omega
  constructor
  case next_lt => exact hf.next_lt
  case target_eq => exact hf.target_eq
  case entry_eq => exact hf.entry_eq
  case source_lt => exact hf.source_lt
  case created_eq => rw [created_push, hf.created_eq]
  case alive_old =>
    intro c hc
    rw [alive_push, hf.alive_old hc]
  case alive_copy =>
    intro i hi
    rw [alive_push, hf.alive_copy hi]
  case owner_copy =>
    intro i hi
    rw [owner_push, hf.owner_copy hi]
  case items_old =>
    intro c hc
    have hne : c ≠ target := by
      rw [hf.target_eq]
      exact Nat.ne_of_lt (Nat.lt_add_right _ hc)
    rw [items_push halive, if_neg hne, hf.items_old hc]
  case contents =>
    intro i d hd
    obtain ⟨done, hdone, hmirrors⟩ := hf.contents hd
    rw [items_push halive]
    by_cases hi : i = queue.next
    · -- the element moves from what is missing to what is done
      subst hi
      rw [CloneQueue.missing_next] at hdone ⊢
      rw [if_pos (hnext.mpr rfl), Array.toList_push, ← hnext.mpr rfl]
      refine ⟨done ++ [x], ?_, ?_⟩
      · rw [hdone, List.append_assoc, List.singleton_append]
      · exact List.rel_append hmirrors (.cons hxy .nil)
    · rw [if_neg (mt hnext.mp hi)]
      refine ⟨done, ?_, hmirrors⟩
      rw [CloneQueue.missing_of_ne hi] at hdone
      exact hdone
  case root_unshared =>
    intro i k hk
    rcases getElem?_items_push halive hk with hk | ⟨-, rfl⟩
    · exact hf.root_unshared i k hk
    · exact hroot rfl
  case parent_unique =>
    -- the new element is at one place only, and it is not among the old ones
    intro i j k l d hi hj
    rcases getElem?_items_push halive hi with hi' | ⟨⟨hti, rfl⟩, rfl⟩
    · rcases getElem?_items_push halive hj with hj' | ⟨-, rfl⟩
      · exact hf.parent_unique i j k l d hi' hj'
      · exact absurd hi' (hnew d rfl i k)
    · rcases getElem?_items_push halive hj with hj' | ⟨⟨htj, rfl⟩, -⟩
      · exact absurd hj' (hnew d rfl j l)
      · exact ⟨(hnext.mp hti).trans (hnext.mp htj).symm, rfl⟩

/-- A leaf is taken over by a further handle. -/
theorem leaf {x : Item} (hf : Filling before s owner target (x :: todo) queue h)
    (hx : x.isStruct = false) :
    Filling before s owner target todo queue ((h.share 1 x).push target x) := by
  have hne : ∀ d, x ≠ .struct d := Item.isStruct_eq_false_iff.1 hx
  exact (hf.share 1 x).append (.leaf hx) (hne _) fun d hd => absurd hd (hne d)

/-- What is still to be copied comes from a struct that existed before. -/
theorem exists_mem_items (hf : Filling before s owner target todo queue h) {x : Item}
    (hx : x ∈ todo) : ∃ d, x ∈ (before.items d).toList := by
  obtain ⟨done, hdone, -⟩ := hf.contents (List.getElem?_eq_getElem hf.next_lt)
  rw [CloneQueue.missing_next] at hdone
  exact ⟨_, hdone ▸ List.mem_append_right done hx⟩

/-- A struct is replaced by a new copy, which is filled later. -/
theorem struct (hb : before.WellFormed) {source copy : ContainerId} {h' : Heap}
    (hf : Filling before s owner target (.struct source :: todo) queue h)
    (hc : h.create owner #[] = (.ok copy, h')) :
    Filling before s owner target todo (queue.push copy source)
      (h'.push target (.struct copy)) := by
  obtain ⟨-, rfl, rfl⟩ := create_eq_ok_iff.1 hc
  obtain ⟨d, hd⟩ := hf.exists_mem_items List.mem_cons_self
  have hcreated : h.created = before.created + (queue.sources s).length := hf.created_eq
  have hf' := hf.enroll (hb.lt_created_of_struct hd)
  have hpos : 0 < (queue.sources s).length := Nat.lt_of_le_of_lt (Nat.zero_le _) hf.next_lt
  refine hf'.append ?_ ?_ ?_
  · -- the new copy is the last one in the queue, and so mirrors the struct
    have hcopy : ((queue.push h.created source).sources s)[(queue.sources s).length]?
        = some source := by
      simp
    have hmirrors : Mirrors before.created ((queue.push h.created source).sources s)
        (.struct source) (.struct (before.created + (queue.sources s).length)) := .copy hcopy
    rwa [← hcreated] at hmirrors
  · -- the first copy is older
    intro heq
    injection heq with heq
    exact absurd (hcreated.symm.trans heq) (Nat.ne_of_gt (Nat.lt_add_of_pos_right hpos))
  · -- the number is new, so that nothing has held it before
    intro d hd i k hk
    rw [items_enroll_empty] at hk
    obtain ⟨j, hj, hcopy⟩ := hf.exists_of_struct hk
    exact absurd (Nat.add_left_cancel (hcreated.symm.trans hcopy)) (Nat.ne_of_gt hj)

end Filling

/-! ## The run of the loop -/

variable {owner : TrackerId} {budget : Nat} {target : ContainerId} {todo : List Item}
  {queue : CloneQueue} {h : Heap}

theorem fillCopies_of_pop?_eq_none (hq : queue.pop? = none) :
    h.fillCopies owner budget target [] queue = (.ok (), h) := by
  unfold fillCopies
  split
  · rfl
  · simp_all

theorem fillCopies_of_pop?_eq_some {copy source : ContainerId} {rest : CloneQueue}
    (hq : queue.pop? = some ((copy, source), rest)) :
    h.fillCopies owner budget target [] queue
      = h.fillCopies owner budget copy (h.items source).toList rest := by
  rw [fillCopies]
  split
  · simp_all
  · simp_all

theorem fillCopies_of_create_eq_error {source : ContainerId} {e : ValueFault} {h' : Heap}
    (hc : h.create owner #[] = (.error e, h')) :
    h.fillCopies owner (budget + 1) target (.struct source :: todo) queue = (.error e, h') := by
  rw [fillCopies]
  simp [hc]

theorem fillCopies_of_create_eq_ok {source copy : ContainerId} {h' : Heap}
    (hc : h.create owner #[] = (.ok copy, h')) :
    h.fillCopies owner (budget + 1) target (.struct source :: todo) queue
      = (h'.push target (.struct copy)).fillCopies owner budget target todo
        (queue.push copy source) := by
  rw [fillCopies]
  simp [hc]

theorem fillCopies_leaf {x : Item} (hx : x.isStruct = false) :
    h.fillCopies owner (budget + 1) target (x :: todo) queue
      = ((h.share 1 x).push target x).fillCopies owner budget target todo queue := by
  rw [fillCopies]
  exact Item.isStruct_eq_false_iff.1 hx

/-- Induction along a run of the loop, with one case for each of its turns. -/
theorem fillCopies_induction (owner : TrackerId)
    {motive : Nat → ContainerId → List Item → CloneQueue → Heap → Prop}
    (done : ∀ budget target queue h, queue.pop? = none → motive budget target [] queue h)
    (pop : ∀ budget target queue h copy source rest, queue.pop? = some ((copy, source), rest) →
      motive budget copy (h.items source).toList rest h → motive budget target [] queue h)
    (spent : ∀ target queue h x todo, motive 0 target (x :: todo) queue h)
    (full : ∀ budget target todo queue h source e h', h.create owner #[] = (.error e, h') →
      motive (budget + 1) target (.struct source :: todo) queue h)
    (struct : ∀ budget target todo queue h source copy h',
      h.create owner #[] = (.ok copy, h') →
      motive budget target todo (queue.push copy source) (h'.push target (.struct copy)) →
      motive (budget + 1) target (.struct source :: todo) queue h)
    (leaf : ∀ budget target todo queue h x, x.isStruct = false →
      motive budget target todo queue ((h.share 1 x).push target x) →
      motive (budget + 1) target (x :: todo) queue h)
    (budget : Nat) (target : ContainerId) (todo : List Item) (queue : CloneQueue) (h : Heap) :
    motive budget target todo queue h := by
  cases todo with
  | nil =>
    cases hq : queue.pop? with
    | none => exact done budget target queue h hq
    | some entry =>
      obtain ⟨⟨copy, source⟩, rest⟩ := entry
      exact pop budget target queue h copy source rest hq
        (fillCopies_induction owner done pop spent full struct leaf budget copy _ rest h)
  | cons x todo =>
    cases budget with
    | zero => exact spent target queue h x todo
    | succ budget =>
      cases hx : x.isStruct with
      | false =>
        exact leaf budget target todo queue h x hx
          (fillCopies_induction owner done pop spent full struct leaf budget target todo queue _)
      | true =>
        obtain ⟨source, rfl⟩ := Item.isStruct_iff.1 hx
        cases hc : h.create owner #[] with
        | mk result h' =>
          cases result with
          | error e => exact full budget target todo queue h source e h' hc
          | ok copy =>
            exact struct budget target todo queue h source copy h' hc
              (fillCopies_induction owner done pop spent full struct leaf budget target todo _ _)
termination_by (budget, queue.size)
decreasing_by
  · exact .right _ (CloneQueue.size_of_pop? hq)
  · subst_vars
    exact .left _ _ (Nat.lt_succ_self budget)
  · subst_vars
    exact .left _ _ (Nat.lt_succ_self budget)

/-- **The invariant of the loop.** Whether a run of the loop is refused or not, it ends with a clone in
progress; it is not refused only if nothing is left to be filled. -/
theorem Filling.fillCopies {before : Heap} {s : ContainerId} (hb : before.WellFormed)
    (hf : Filling before s owner target todo queue h) (budget : Nat) :
    ∃ target' todo' queue',
      Filling before s owner target' todo' queue'
          (h.fillCopies owner budget target todo queue).2 ∧
        ((h.fillCopies owner budget target todo queue).1 = .ok () →
          todo' = [] ∧ queue'.pop? = none) := by
  induction budget, target, todo, queue, h using fillCopies_induction owner with
  | done budget target queue h hq =>
    refine ⟨target, [], queue, ?_, fun _ => ⟨rfl, hq⟩⟩
    rw [fillCopies_of_pop?_eq_none hq]
    exact hf
  | pop budget target queue h copy source rest hq ih =>
    rw [fillCopies_of_pop?_eq_some hq]
    exact ih (hf.pop hq)
  | spent target queue h x todo =>
    refine ⟨target, x :: todo, queue, ?_, ?_⟩
    · rw [fillCopies_zero_cons]
      exact hf
    · rw [fillCopies_zero_cons]
      intro hok
      cases hok
  | full budget target todo queue h source e h' hc =>
    -- a refused creation of an empty container leaves the heap as it was
    obtain rfl : h' = h := eq_of_create_empty_eq_error hc
    refine ⟨target, .struct source :: todo, queue, ?_, ?_⟩
    · rw [fillCopies_of_create_eq_error hc]
      exact hf
    · rw [fillCopies_of_create_eq_error hc]
      intro hok
      cases hok
  | struct budget target todo queue h source copy h' hc ih =>
    rw [fillCopies_of_create_eq_ok hc]
    exact ih (hf.struct hb hc)
  | leaf budget target todo queue h x hx ih =>
    rw [fillCopies_leaf hx]
    exact ih (hf.leaf hx)

/-- When nothing is left, every copy mirrors its source. -/
theorem Filling.forall₂_mirrors {before : Heap} {s : ContainerId}
    (hf : Filling before s owner target [] queue h) (hq : queue.pop? = none) {i : Nat}
    {d : ContainerId} (hd : (queue.sources s)[i]? = some d) :
    List.Forall₂ (Mirrors before.created (queue.sources s)) (before.items d).toList
      (h.items (before.created + i)).toList := by
  obtain ⟨done, hdone, hmirrors⟩ := hf.contents hd
  have hi : i < (queue.sources s).length := (List.getElem?_eq_some_iff.mp hd).1
  rw [CloneQueue.length_sources] at hi
  have hle : i ≤ queue.next :=
    Nat.le_trans (Nat.le_of_lt_succ hi) (CloneQueue.pop?_eq_none_iff.1 hq)
  -- the copies before the current one are full, and the current one lacks nothing
  have hmissing : queue.missing [] i (before.items d).toList = [] := by
    rcases Nat.lt_or_eq_of_le hle with hi | rfl
    · exact CloneQueue.missing_of_lt hi
    · exact CloneQueue.missing_next _ _
  rw [hmissing, List.append_nil] at hdone
  rw [hdone]
  exact hmirrors

end Heap

end BoundedVm
