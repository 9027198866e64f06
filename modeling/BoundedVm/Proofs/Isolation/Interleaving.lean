import BoundedVm.Proofs.Isolation.Requests
import BoundedVm.Proofs.Machine.Reachable

/-! # Executions do not interfere

Several parties make requests to one machine, in any order, each of them under its own names. A request
is given handles by the names of their slots, so that no party is given a handle to a container of
another one; beside its own slots each may look at slots of all, whose values are no containers. Each
party is answered as if it were alone: the machine hosts, one beside the other, the machines that there
would be if only one party had made its requests.

* `Machine.Interleaved`: the machine hosts the machines of all parties, under names that have nothing in
  common.
* `Machine.Interleaved.step`: a request of a party keeps this.
* `Machine.interleaved_as_alone`: what a party gets from the machine is what it would get alone. -/

namespace BoundedVm

/-- Whether a party uses nothing that another one may change. -/
structure Territory.SafeFrom (T U : Territory) : Prop where
  slots : ∀ slot ∈ T.slots, slot ∉ U.own
  scopes : ∀ scope ∈ T.scopes, scope ∉ U.scopes

theorem Naming.RenamesAnswer.mono {base : Heap} {w w' : Naming} {a b : Answer}
    (h : w.RenamesAnswer a b) (hw : w.Grows base w') : w'.RenamesAnswer a b := by
  cases a <;> cases b <;> first | exact Naming.RenamesTracker.mono h hw | exact h

theorem SameOutcome.imp {ε α : Type} {R S : α → α → Prop} {a b : Except ε α}
    (h : SameOutcome R a b) (hRS : ∀ a b, R a b → S a b) : SameOutcome S a b := by
  cases h with
  | ok hab => exact .ok (hRS _ _ hab)
  | error fault => exact .error fault

namespace Machine

/-! ## Runs -/

/-- What the machine answers to a request. -/
def outcome (m : Machine) (r : Request) : Except MachineFault Answer :=
  match perform r m with
  | .ok answer _ => .ok answer
  | .error fault _ => .error fault

section Runs

variable {ι : Type}

/-- The machine after the requests of several parties, the first one first. -/
def afterAll (m : Machine) (run : List (ι × Request)) : Machine :=
  run.foldl (fun m entry => m.after entry.2) m

variable [DecidableEq ι] {p q : ι}

/-- The requests that one party makes. -/
def requestsOf (p : ι) (run : List (ι × Request)) : List (ι × Request) :=
  run.filter (·.1 = p)

/-- What the machine answers to one party while it serves all. -/
def outcomesOf (p : ι) (m : Machine) : List (ι × Request) → List (Except MachineFault Answer)
  | [] => []
  | (q, r) :: run =>
    if q = p then m.outcome r :: outcomesOf p (m.after r) run else outcomesOf p (m.after r) run

theorem requestsOf_cons_self (r : Request) (run : List (ι × Request)) :
    requestsOf p ((p, r) :: run) = (p, r) :: requestsOf p run :=
  List.filter_cons_of_pos (decide_eq_true rfl)

theorem requestsOf_cons_of_ne (hp : p ≠ q) (r : Request) (run : List (ι × Request)) :
    requestsOf p ((q, r) :: run) = requestsOf p run :=
  List.filter_cons_of_neg (by simpa using hp.symm)

theorem outcomesOf_cons_self (m : Machine) (r : Request) (run : List (ι × Request)) :
    outcomesOf p m ((p, r) :: run) = m.outcome r :: outcomesOf p (m.after r) run :=
  if_pos rfl

theorem outcomesOf_cons_of_ne (hp : p ≠ q) (m : Machine) (r : Request)
    (run : List (ι × Request)) : outcomesOf p m ((q, r) :: run) = outcomesOf p (m.after r) run :=
  if_neg hp.symm

end Runs

/-- Outcomes are related if machines are. -/
theorem parallel_request {T : Territory} {base m n : Machine} {w : Naming} {r : Request}
    (hp : Parallel T base w Naming.RenamesAnswer (perform r m) (perform r n)) :
    ∃ w', w.Grows base.heap w' ∧ SameOutcome w'.RenamesAnswer (m.outcome r) (n.outcome r)
      ∧ Hosts T base w' (m.after r) (n.after r) := by
  unfold outcome after
  generalize perform r m = left at hp ⊢
  generalize perform r n = right at hp ⊢
  cases hp with
  | ok hw hab e => exact ⟨_, hw, .ok hab, e⟩
  | error hw e => exact ⟨_, hw, .error _, e⟩

/-- What a party sees stays as it is while another one is served. -/
theorem Hosts.of_beside {T U : Territory} {m n a b : Machine} {w v : Naming}
    (e : Hosts T m w a m) (e' : Hosts U m v b n) (hTU : T.SafeFrom U) (hwv : w.Apart v) :
    Hosts T n w a n where
  heap := e.heap.of_beside e'.heap hwv
  slot {name} hname := by
    rw [e'.slot_beside (hTU.slots name hname)]
    exact e.slot hname
  scope {name} hname := by
    rw [e'.scope_beside (hTU.scopes name hname)]
    exact e.scope hname
  scripts := e.scripts.trans e'.scripts_beside.symm
  slot_beside := fun _ => rfl
  scope_beside := fun _ => rfl
  scripts_beside := rfl

/-! ## The machines of the parties -/

section Parties

variable {ι : Type} [DecidableEq ι] {T : ι → Territory} {may : Heap.Effect → Prop}
  {P : Heap → List Item → Prop}

/-- The machine hosts a machine for each party, and no container or tracker is in two of them. -/
structure Interleaved (T : ι → Territory) (P : Heap → List Item → Prop) (w : ι → Naming)
    (alone : ι → Machine) (m : Machine) : Prop where
  hosts : ∀ p, Hosts (T p) m (w p) (alone p) m
  holds : ∀ p, (alone p).Holds P []
  apart : ∀ p q, p ≠ q → (w p).Apart (w q)

variable {w : ι → Naming} {alone : ι → Machine} {m : Machine}

/-- **A request of a party** is answered as it is when the party is alone, and changes nothing that the
other parties see. -/
theorem Interleaved.step (hI : Interleaved T P w alone m) (hP : Heap.Invariant may P)
    (hmay : ∀ e, may e) (hT : ∀ p q, p ≠ q → (T p).SafeFrom (T q)) {q : ι} {r : Request}
    (hr : r.Within (T q)) :
    ∃ w', (w q).Grows m.heap w'
      ∧ SameOutcome w'.RenamesAnswer ((alone q).outcome r) (m.outcome r)
      ∧ Interleaved T P (Function.update w q w') (Function.update alone q ((alone q).after r))
        (m.after r) := by
  obtain ⟨w', hw, hout, e⟩ := parallel_request (parallel_perform hP (hI.holds q) (hI.hosts q) hr)
  -- what the party has made is new, and so apart from what the others have
  have hapart : ∀ p, p ≠ q → (w p).Apart w' :=
    fun p hp => (hI.hosts p).heap.apart_of_grows hw (hI.apart p q hp)
  refine ⟨w', hw, hout, ⟨fun p => ?_, fun p => ?_, fun p p' hne => ?_⟩⟩
  · by_cases hp : p = q
    · subst hp
      rw [Function.update_self, Function.update_self]
      exact e.rebase
    · rw [Function.update_of_ne hp, Function.update_of_ne hp]
      exact (hI.hosts p).of_beside e (hT p q hp) (hapart p hp)
  · by_cases hp : p = q
    · subst hp
      rw [Function.update_self]
      exact (hI.holds p).after hP r fun e _ => hmay e
    · rw [Function.update_of_ne hp]
      exact hI.holds p
  · by_cases hp : p = q
    · subst hp
      rw [Function.update_self, Function.update_of_ne hne.symm]
      exact (hapart p' hne.symm).symm
    · rw [Function.update_of_ne hp]
      by_cases hp' : p' = q
      · subst hp'
        rw [Function.update_self]
        exact hapart p hp
      · rw [Function.update_of_ne hp']
        exact hI.apart p p' hne

/-- **A run of all parties** hosts the runs that the parties make alone, and each party gets the same
outcomes in both, under names that only become more. -/
theorem Interleaved.afterAll (hI : Interleaved T P w alone m) (hP : Heap.Invariant may P)
    (hmay : ∀ e, may e) (hT : ∀ p q, p ≠ q → (T p).SafeFrom (T q)) {run : List (ι × Request)}
    (hrun : ∀ entry ∈ run, entry.2.Within (T entry.1)) :
    ∃ w', Interleaved T P w' (fun p => (alone p).afterAll (requestsOf p run)) (m.afterAll run)
      ∧ ∀ p, (w p).Grows .empty (w' p)
        ∧ List.Forall₂ (SameOutcome (w' p).RenamesAnswer)
          (outcomesOf p (alone p) (requestsOf p run)) (outcomesOf p m run) := by
  induction run generalizing w alone m with
  | nil => exact ⟨w, hI, fun p => ⟨.refl, .nil⟩⟩
  | cons entry run ih =>
    obtain ⟨q, r⟩ := entry
    have hrest : ∀ entry ∈ run, entry.2.Within (T entry.1) :=
      fun entry hentry => hrun entry (List.mem_cons_of_mem _ hentry)
    obtain ⟨w₁, hw₁, hout, hI₁⟩ := hI.step hP hmay hT (hrun (q, r) List.mem_cons_self)
    obtain ⟨w', hI', hrestOut⟩ := ih hI₁ hrest
    refine ⟨w', ?_, fun p => ?_⟩
    · -- the party that made the request has it before its others, and no other party has it
      have halone : (fun p => (alone p).afterAll (requestsOf p ((q, r) :: run)))
          = fun p => (Function.update alone q ((alone q).after r) p).afterAll (requestsOf p run) := by
        funext p
        by_cases hp : p = q
        · subst hp
          rw [requestsOf_cons_self, Function.update_self]
          rfl
        · rw [requestsOf_cons_of_ne hp, Function.update_of_ne hp]
      rw [halone]
      exact hI'
    · obtain ⟨hw', hout'⟩ := hrestOut p
      by_cases hp : p = q
      · subst hp
        rw [Function.update_self] at hw' hout'
        rw [requestsOf_cons_self, outcomesOf_cons_self, outcomesOf_cons_self]
        exact ⟨hw₁.forget.trans hw', .cons (hout.imp fun _ _ hab => hab.mono hw') hout'⟩
      · rw [Function.update_of_ne hp] at hw' hout'
        rw [requestsOf_cons_of_ne hp, outcomesOf_cons_of_ne hp]
        exact ⟨hw', hout'⟩

end Parties

end Machine

/-! ## Before the executions -/

/-- Whether an item is no container, and no later allocation than the first `n`. -/
def Item.MadeBefore (n : Nat) : Item → Prop
  | .integer allocation _ | .bytes allocation _ => allocation < n
  | .array _ | .struct _ => False
  | _ => True

/-- The names that an execution finds: those of the first `n` allocations. -/
def Naming.start (n : Nat) : Naming := ⟨.same 0, .same 0, .same n⟩

namespace Item.MadeBefore

variable {n : Nat} {x : Item}

theorem container?_eq_none (hx : x.MadeBefore n) : x.container? = none := by
  cases x with
  | array c => exact hx.elim
  | struct c => exact hx.elim
  | _ => rfl

theorem renames (hx : x.MadeBefore n) : (Naming.start n).Renames x x := by
  cases x with
  | null => exact .null
  | boolean b => exact .boolean b
  | integer allocation i => exact .integer (Renaming.maps_same hx) i
  | bytes allocation content => exact .bytes (Renaming.maps_same hx) content
  | pointer script position => exact .pointer script position
  | array c => exact hx.elim
  | struct c => exact hx.elim

end Item.MadeBefore

namespace Machine

/-- A machine on which nothing has been opened yet. There may be scripts, and values in slots. -/
structure Prepared (m : Machine) : Prop where
  containers : m.heap.containers = #[]
  trackers : m.heap.trackers = #[]
  scopes : m.scopes = []
  nodup : (m.slots.map Prod.fst).Nodup
  values : ∀ x ∈ m.handles, x.MadeBefore m.heap.allocations

namespace Prepared

variable {m : Machine}

theorem container?_eq_none (hm : m.Prepared) (c : ContainerId) : m.heap.container? c = none := by
  simp [Heap.container?, hm.containers]

theorem accounted (hm : m.Prepared) : m.heap.Accounted m.handles := by
  have hleaves : ∀ x ∈ m.handles, x.container? = none :=
    fun x hx => (hm.values x hx).container?_eq_none
  generalize m.handles = held at hleaves ⊢
  -- handles to no container are not counted, and no container counts any
  induction held with
  | nil =>
    constructor
    · intro c
      simp [Heap.handles, hm.container?_eq_none, Heap.kept, Heap.total, hm.containers]
    · intro c hc
      simp [Heap.alive, hm.container?_eq_none] at hc
    · intro c hc
      simp [Heap.alive, hm.container?_eq_none] at hc
  | cons x xs ih =>
    rw [Heap.Accounted.cons_iff_of_leaf (hleaves x List.mem_cons_self)]
    exact ih fun y hy => hleaves y (List.mem_cons_of_mem x hy)

/-- Every party finds the same. -/
theorem hosts (hm : m.Prepared) (T : Territory) : Hosts T m (.start m.heap.allocations) m m where
  heap := {
    containers := by
      rw [Heap.created, hm.containers]
      exact Renaming.fits_same 0
    trackers := by
      rw [hm.trackers]
      exact Renaming.fits_same 0
    allocations := Renaming.fits_same _
    container := fun {c d} _ => by
      rw [hm.container?_eq_none, hm.container?_eq_none]
      exact .none
    tracker := fun {t u} _ => by
      rw [Heap.tracker?, Heap.tracker?, hm.trackers]
      exact .none
    follows := .refl
    container_beside := fun _ => rfl
    tracker_beside := fun _ => rfl }
  slot {name} _ := by
    cases hx : m.slots.lookup name with
    | none => exact .none
    | some x => exact .some (hm.values x (mem_handles_of_lookup hx)).renames
  scope {name} _ := by
    rw [hm.scopes]
    exact .none
  scripts := rfl
  slot_beside := fun _ => rfl
  scope_beside := fun _ => rfl
  scripts_beside := rfl

end Prepared

/-! ## Interleavings -/

variable {ι : Type} [DecidableEq ι]

/-- Whether a party gets from a machine that serves all what it would get if it were alone, but for
numbers. -/
structure AsAlone (T : Territory) (m : Machine) (run : List (ι × Request)) (p : ι) (w : Naming) :
    Prop where
  /-- The party gets the same answers and the same refusals. -/
  outcomes : List.Forall₂ (SameOutcome w.RenamesAnswer) (outcomesOf p m (requestsOf p run))
    (outcomesOf p m run)
  /-- The party has the same handles. -/
  slots : ∀ slot ∈ T.slots, Option.Rel w.Renames
    ((m.afterAll (requestsOf p run)).slots.lookup slot) ((m.afterAll run).slots.lookup slot)
  /-- At any time as many containers of the party are live and have been at most. -/
  usage : ∀ time, ∀ scope ∈ T.scopes,
    (m.afterAll (requestsOf p (run.take time))).usage? scope
      = (m.afterAll (run.take time)).usage? scope

/-- **Executions do not interfere.** Whatever several parties request, and in whatever order their
requests come, each gets the same answers, the same refusals and the same handles as if it were alone,
up to the numbers of what is made, and the counts and peaks of its scopes are the same at any time. -/
theorem interleaved_as_alone {T : ι → Territory} (hT : ∀ p q, p ≠ q → (T p).SafeFrom (T q))
    {m : Machine} (hm : m.Prepared) {run : List (ι × Request)}
    (hrun : ∀ entry ∈ run, entry.2.Within (T entry.1)) (p : ι) : ∃ w, AsAlone (T p) m run p w := by
  let found : Heap.Moment := ⟨m.heap, m.handles⟩
  have hP : Heap.Invariant (fun _ => True) (Heap.Leads (fun _ => True) found) :=
    Heap.invariant_leads _ hm.accounted
  have hI : Interleaved T (Heap.Leads (fun _ => True) found)
      (fun _ => .start m.heap.allocations) (fun _ => m) m := by
    refine ⟨fun p => hm.hosts (T p), fun p => ⟨?_, hm.nodup⟩, fun p q _ => ⟨?_, ?_⟩⟩
    · rw [List.append_nil]
      exact ⟨[], .refl⟩
    · exact fun d hd => absurd hd (List.not_mem_nil)
    · exact fun u hu => absurd hu (List.not_mem_nil)
  obtain ⟨w, hI', hw⟩ := hI.afterAll hP (fun _ => trivial) hT hrun
  refine ⟨w p, (hw p).2, fun slot hslot => (hI'.hosts p).slot hslot, fun time scope hscope => ?_⟩
  -- a run that is cut off is a run
  obtain ⟨w', hI', -⟩ := hI.afterAll hP (fun _ => trivial) hT
    fun entry hentry => hrun entry (List.mem_of_mem_take hentry)
  exact (hI'.hosts p).usage?_eq hscope

/-- Two parties that share a slot. -/
def neighbours : Bool → Territory
  | false => ⟨{"common", "a"}, {"a"}, {"s"}, by simp⟩
  | true => ⟨{"common", "b"}, {"b"}, {"t"}, by simp⟩

/-- A machine with a byte string in the slot that they share, and nothing else. -/
def commonGround : Machine := ⟨⟨#[], #[], 1⟩, [("common", .bytes 0 [7])], [], []⟩

/-- Requests of both: one party clones a struct, and the other one fails to clone a cycle. -/
def alternating : List (Bool × Request) :=
  [(false, ⟨"s", none, none, .openScope ⟨4, 4⟩⟩),
    (true, ⟨"t", none, none, .openScope ⟨3, 4⟩⟩),
    (true, ⟨"t", some "b", none, .create .struct [(.copy "common", 1)]⟩),
    (false, ⟨"s", some "a", none, .create .struct [(.copy "common", 1)]⟩),
    (true, ⟨"t", none, none, .push "b" (.copy "b") 1⟩),
    (true, ⟨"t", some "b", none, .clone "b"⟩),
    (false, ⟨"s", some "a", none, .clone "a"⟩),
    (true, ⟨"t", none, none, .endScope⟩)]

theorem interleaved_as_alone_alternating :
    ((commonGround.afterAll alternating).slots.lookup "a" = some (.struct 4)
      ∧ (commonGround.afterAll (requestsOf false alternating)).slots.lookup "a" = some (.struct 1)
      ∧ (commonGround.afterAll alternating).usage? "s" = some (1, 2))
    ∧ ∃ w, AsAlone (neighbours false) commonGround alternating false w := by
  have hsafe : ∀ p q, p ≠ q → (neighbours p).SafeFrom (neighbours q) := by
    intro p q hpq
    cases p <;> cases q
    · exact absurd rfl hpq
    · constructor <;> simp [neighbours]
    · constructor <;> simp [neighbours]
    · exact absurd rfl hpq
  have hprepared : commonGround.Prepared := by
    constructor <;> simp [commonGround, handles, Item.MadeBefore]
  have hwithin : ∀ entry ∈ alternating, entry.2.Within (neighbours entry.1) := by
    simp only [alternating, List.forall_mem_cons]
    refine ⟨?_, ?_, ?_, ?_, ?_, ?_, ?_, ?_, by simp⟩ <;> constructor <;>
      simp [neighbours, Operation.Within, Operand.Within]
  exact ⟨by cbv, interleaved_as_alone hsafe hprepared hwithin false⟩

end Machine

end BoundedVm
