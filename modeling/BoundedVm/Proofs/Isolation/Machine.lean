import BoundedVm.Proofs.Isolation.Clone
import BoundedVm.Proofs.Isolation.Looks
import BoundedVm.Proofs.Machine.Invariant

/-! # One machine inside another

A machine hosts another one under a naming if its heap does and the names that a party may use stand for
the same things in both. An action that uses these names only does the same in both machines, and in the
host it changes no other names.

* `Territory`: the names of a party.
* `Machine.Hosts`: the relation between two machines.
* `Machine.Parallel`: the outcomes of an action in both, with one rule for each way to compose
  actions. -/

namespace BoundedVm

/-- The names that a party may use. Slots that are not its own it may only look at. -/
structure Territory where
  slots : Set String
  /-- The slots that the party may change. -/
  own : Set String
  scopes : Set String
  own_subset : own ⊆ slots

/-- Whether two scopes are the same but for numbers. -/
structure Naming.RenamesScope (w : Naming) (s t : Scope) : Prop where
  tracker : w.trackers.Maps s.tracker t.tracker
  limits : s.limits = t.limits
  running : s.running = t.running

theorem Naming.RenamesScope.mono {base : Heap} {w w' : Naming} {s t : Scope}
    (h : w.RenamesScope s t) (hw : w.Grows base w') : w'.RenamesScope s t :=
  { h with tracker := h.tracker.mono hw.trackers }

/-- Whether two rows of items are the same but for numbers. -/
def Naming.RenamesArray (w : Naming) (xs ys : Array Item) : Prop :=
  List.Forall₂ w.Renames xs.toList ys.toList

namespace Naming.RenamesArray

variable {base : Heap} {w w' : Naming} {xs xs' ys ys' : Array Item}

theorem mono (h : w.RenamesArray xs ys) (hw : w.Grows base w') : w'.RenamesArray xs ys :=
  forall₂_mono h hw

theorem append (h : w.RenamesArray xs ys) (h' : w.RenamesArray xs' ys') :
    w.RenamesArray (xs ++ xs') (ys ++ ys') := by
  rw [RenamesArray, Array.toList_append, Array.toList_append]
  exact List.rel_append h h'

theorem single {x y : Item} (hxy : w.Renames x y) : w.RenamesArray #[x] #[y] :=
  .cons hxy .nil

theorem pair {x x' y y' : Item} (h : w.Renames x y) (h' : w.Renames x' y') :
    w.RenamesArray #[x, x'] #[y, y'] :=
  .cons h (.cons h' .nil)

theorem replicate {x y : Item} (hxy : w.Renames x y) (n : Nat) :
    w.RenamesArray (Array.replicate n x) (Array.replicate n y) := by
  rw [RenamesArray, Array.toList_replicate, Array.toList_replicate]
  exact forall₂_replicate n hxy

end Naming.RenamesArray

/-! ## Lists of names -/

section Lookup

variable {α : Type} (name other : String) (xs : List (String × α))

theorem lookup_cons_eq_ite (x : α) :
    ((name, x) :: xs).lookup other = if other = name then some x else xs.lookup other := by
  rw [List.lookup_cons]
  by_cases hother : other = name
  · rw [if_pos hother, beq_iff_eq.mpr hother]
  · rw [if_neg hother, beq_eq_false_iff_ne.mpr hother]

theorem lookup_filter_ne :
    (xs.filter (·.1 != name)).lookup other = if other = name then none else xs.lookup other := by
  induction xs with
  | nil => simp
  | cons entry xs ih =>
    obtain ⟨first, x⟩ := entry
    rw [lookup_cons_eq_ite]
    by_cases hfirst : first = name
    · -- the entry goes, and so do all others that bear its name
      rw [List.filter_cons_of_neg (by simpa using hfirst), ih, hfirst]
      split <;> rfl
    · rw [List.filter_cons_of_pos (by simpa using hfirst), lookup_cons_eq_ite, ih]
      by_cases hother : other = first
      · rw [if_pos hother, if_pos hother, if_neg fun heq => hfirst (hother.symm.trans heq)]
      · rw [if_neg hother, if_neg hother]

theorem lookup_putNamed (x : α) :
    (putNamed name x xs).lookup other = if other = name then some x else xs.lookup other := by
  rw [putNamed, lookup_cons_eq_ite, lookup_filter_ne]
  split <;> rfl

end Lookup

namespace Machine

/-- The machine `n` has everything that a party sees of `m`, under the numbers that `w` gives, and
beside it what `base` has. -/
structure Hosts (T : Territory) (base : Machine) (w : Naming) (m n : Machine) : Prop where
  heap : Heap.Hosts base.heap w m.heap n.heap
  slot : ∀ {name}, name ∈ T.slots → Option.Rel w.Renames (m.slots.lookup name) (n.slots.lookup name)
  scope : ∀ {name}, name ∈ T.scopes →
    Option.Rel w.RenamesScope (m.scopes.lookup name) (n.scopes.lookup name)
  scripts : m.scripts = n.scripts
  slot_beside : ∀ {name}, name ∉ T.own → n.slots.lookup name = base.slots.lookup name
  scope_beside : ∀ {name}, name ∉ T.scopes → n.scopes.lookup name = base.scopes.lookup name
  scripts_beside : n.scripts = base.scripts

/-- What an action leaves behind in a hosted machine and in its host, under a naming that may have
grown: both actions are refused for the same reason, or both have results. -/
inductive Parallel {α : Type} (T : Territory) (base : Machine) (w : Naming)
    (R : Naming → α → α → Prop) :
    EStateM.Result MachineFault Machine α → EStateM.Result MachineFault Machine α → Prop
  | ok {w' : Naming} {a b : α} {m n : Machine} (hw : w.Grows base.heap w') (hab : R w' a b)
    (e : Hosts T base w' m n) : Parallel T base w R (.ok a m) (.ok b n)
  | error {w' : Naming} {fault : MachineFault} {m n : Machine} (hw : w.Grows base.heap w')
    (e : Hosts T base w' m n) : Parallel T base w R (.error fault m) (.error fault n)

variable {T : Territory} {base m n : Machine} {w w' : Naming} {name : String}

namespace Hosts

/-- What the host has beside the hosted machine may be looked at from now on. -/
theorem rebase (e : Hosts T base w m n) : Hosts T n w m n :=
  { e with
    heap := e.heap.rebase
    slot_beside := fun _ => rfl
    scope_beside := fun _ => rfl
    scripts_beside := rfl }

/-! ## Changes -/

theorem withHeap {h k : Heap} (e : Hosts T base w m n) (hw : w.Grows base.heap w')
    (ek : Heap.Hosts base.heap w' h k) :
    Hosts T base w' { m with heap := h } { n with heap := k } :=
  { e with
    heap := ek
    slot := fun hname => Heap.option_rel_imp (fun _ _ hxy => hxy.mono hw) (e.slot hname)
    scope := fun hname => Heap.option_rel_imp (fun _ _ hst => hst.mono hw) (e.scope hname) }

theorem takeSlot (e : Hosts T base w m n) (hname : name ∈ T.own) :
    Hosts T base w { m with slots := m.slots.filter (·.1 != name) }
      { n with slots := n.slots.filter (·.1 != name) } where
  heap := e.heap
  slot {other} hother := by
    rw [lookup_filter_ne, lookup_filter_ne]
    split
    · exact .none
    · exact e.slot hother
  scope := e.scope
  scripts := e.scripts
  slot_beside {other} hother := by
    have hne : other ≠ name := fun heq => hother (heq ▸ hname)
    rw [lookup_filter_ne, if_neg hne]
    exact e.slot_beside hother
  scope_beside := e.scope_beside
  scripts_beside := e.scripts_beside

theorem putSlot {x y : Item} (e : Hosts T base w m n) (hname : name ∈ T.own) (hxy : w.Renames x y) :
    Hosts T base w { m with slots := putNamed name x m.slots }
      { n with slots := putNamed name y n.slots } where
  heap := e.heap
  slot {other} hother := by
    rw [lookup_putNamed, lookup_putNamed]
    split
    · exact .some hxy
    · exact e.slot hother
  scope := e.scope
  scripts := e.scripts
  slot_beside {other} hother := by
    have hne : other ≠ name := fun heq => hother (heq ▸ hname)
    rw [lookup_putNamed, if_neg hne]
    exact e.slot_beside hother
  scope_beside := e.scope_beside
  scripts_beside := e.scripts_beside

theorem putScope {s t : Scope} (e : Hosts T base w m n) (hname : name ∈ T.scopes)
    (hst : w.RenamesScope s t) :
    Hosts T base w { m with scopes := putNamed name s m.scopes }
      { n with scopes := putNamed name t n.scopes } where
  heap := e.heap
  slot := e.slot
  scope {other} hother := by
    rw [lookup_putNamed, lookup_putNamed]
    split
    · exact .some hst
    · exact e.scope hother
  scripts := e.scripts
  slot_beside := e.slot_beside
  scope_beside {other} hother := by
    have hne : other ≠ name := fun heq => hother (heq ▸ hname)
    rw [lookup_putNamed, if_neg hne]
    exact e.scope_beside hother
  scripts_beside := e.scripts_beside

/-- The counts of a scope of the party are the same in both machines. -/
theorem usage?_eq (e : Hosts T base w m n) (hname : name ∈ T.scopes) :
    m.usage? name = n.usage? name := by
  unfold usage?
  obtain ⟨hs, ht⟩ | ⟨s, t, hs, ht, hst⟩ := Heap.option_rel_cases (e.scope hname)
  · rw [hs, ht]
    rfl
  · obtain ⟨a, b, ha, hb, hab⟩ := e.heap.exists_tracker? hst.tracker
    simp only [hs, ht, Option.bind_some, ha, hb, Option.map_some, hab.live, hab.peak]

end Hosts

/-! ## Rules -/

section Rules

variable {α β : Type} {R : Naming → α → α → Prop} {R' : Naming → β → β → Prop} {a b : α}
  {x y : Item} {xs ys : List Item}

theorem Parallel.of_grows {left right : EStateM.Result MachineFault Machine α}
    (hw : w.Grows base.heap w') (hp : Parallel T base w' R left right) :
    Parallel T base w R left right := by
  cases hp with
  | ok hw' hab e => exact .ok (hw.trans hw') hab e
  | error hw' e => exact .error (hw.trans hw') e

theorem parallel_pure (e : Hosts T base w m n) (hab : R w a b) :
    Parallel T base w R ((pure a : Action α) m) ((pure b : Action α) n) :=
  .ok .refl hab e

theorem parallel_throw (e : Hosts T base w m n) (fault : MachineFault) :
    Parallel T base w R ((throw fault : Action α) m) ((throw fault : Action α) n) :=
  .error .refl e

/-- Two actions in a row: the second starts under the naming that the first one has left. -/
theorem Parallel.bind {act act' : Action α} {next next' : α → Action β}
    (hact : Parallel T base w R (act m) (act' n))
    (hnext : ∀ w' a b m' n', act m = .ok a m' → w.Grows base.heap w' → R w' a b →
      Hosts T base w' m' n' → Parallel T base w' R' (next a m') (next' b n')) :
    Parallel T base w R' ((act >>= next) m) ((act' >>= next') n) := by
  show Parallel T base w R' (EStateM.bind act next m) (EStateM.bind act' next' n)
  unfold EStateM.bind
  generalize hleft : act m = left at hact ⊢
  generalize act' n = right at hact ⊢
  cases hact with
  | ok hw hab e => exact (hnext _ _ _ _ _ hleft hw hab e).of_grows hw
  | error hw e => exact .error hw e

theorem parallel_get_bind {next next' : Machine → Action β}
    (hnext : Parallel T base w R' (next m m) (next' n n)) :
    Parallel T base w R' ((get >>= next) m) ((get >>= next') n) := hnext

theorem parallel_onHeap {f f' : Heap → Except ValueFault α × Heap} (e : Hosts T base w m n)
    (hf : Heap.Parallel base.heap w R (f m.heap) (f' n.heap)) :
    Parallel T base w R (onHeap f m) (onHeap f' n) := by
  unfold onHeap
  obtain ⟨w', a, b, h, k, hleft, hright, hw, hab, ek⟩ | ⟨w', fault, h, k, hleft, hright, hw, ek⟩ :=
    hf.cases
  · simp only [hleft, hright]
    exact .ok hw hab (e.withHeap hw ek)
  · simp only [hleft, hright]
    exact .error hw (e.withHeap hw ek)

/-- What cannot be refused leaves the naming as it is. -/
theorem parallel_modifyHeap_bind {f f' : Heap → Heap} {next next' : Unit → Action β}
    (e : Hosts T base w m n) (hf : Heap.Hosts base.heap w (f m.heap) (f' n.heap))
    (hnext : ∀ m' n', Hosts T base w m' n' → Parallel T base w R' (next () m') (next' () n')) :
    Parallel T base w R' ((modifyHeap f >>= next) m) ((modifyHeap f' >>= next') n) :=
  hnext _ _ (e.withHeap .refl hf)

theorem parallel_giveUp_bind {next next' : Unit → Action β} (e : Hosts T base w m n)
    (hxy : List.Forall₂ w.Renames xs ys)
    (hnext : ∀ m' n', Hosts T base w m' n' → Parallel T base w R' (next () m') (next' () n')) :
    Parallel T base w R' ((giveUp xs >>= next) m) ((giveUp ys >>= next') n) :=
  parallel_modifyHeap_bind e (e.heap.release hxy) hnext

/-- What is held while an action is done keeps its names, and is given up in both machines or in
none. -/
theorem parallel_holding {zs zs' : Array Item} {act act' : Action α}
    (hzs : w.RenamesArray zs zs')
    (hact : Parallel T base w R (act m) (act' n)) :
    Parallel T base w R (holding zs act m) (holding zs' act' n) := by
  unfold holding
  generalize act m = left at hact ⊢
  generalize act' n = right at hact ⊢
  cases hact with
  | ok hw hab e => exact .ok hw hab e
  | error hw e =>
    exact .error hw (e.withHeap .refl (e.heap.release (hzs.mono hw)))

theorem parallel_find_bind {γ : Type} {names : Machine → List (String × γ)} {S : γ → γ → Prop}
    {next next' : γ → Action β} (e : Hosts T base w m n)
    (hnames : Option.Rel S ((names m).lookup name) ((names n).lookup name))
    (hnext : ∀ a b, (names m).lookup name = some a → S a b →
      Parallel T base w R' (next a m) (next' b n)) :
    Parallel T base w R' ((find name names >>= next) m) ((find name names >>= next') n) := by
  show Parallel T base w R' (EStateM.bind (find name names) next m)
    (EStateM.bind (find name names) next' n)
  unfold EStateM.bind find
  obtain ⟨ha, hb⟩ | ⟨a, b, ha, hb, hab⟩ := Heap.option_rel_cases hnames
  · rw [ha, hb]
    exact .error .refl e
  · rw [ha, hb]
    exact hnext a b ha hab

theorem parallel_containerOf (e : Hosts T base w m n) (hxy : w.Renames x y) :
    Parallel T base w (fun w => w.containers.Maps) (containerOf x m) (containerOf y n) := by
  unfold containerOf
  obtain ⟨hx, hy⟩ | ⟨c, d, hx, hy, hcd⟩ := Heap.option_rel_cases hxy.container?
  · rw [hx, hy]
    exact parallel_throw e _
  · rw [hx, hy]
    exact parallel_pure e hcd

theorem parallel_containerIn_bind {next next' : ContainerId → Action β} (e : Hosts T base w m n)
    (hname : name ∈ T.slots)
    (hnext : ∀ x c d, m.slots.lookup name = some x → x.container? = some c →
      w.containers.Maps c d → Parallel T base w R' (next c m) (next' d n)) :
    Parallel T base w R' ((containerIn name >>= next) m) ((containerIn name >>= next') n) := by
  rw [containerIn, slot, bind_assoc, bind_assoc]
  refine parallel_find_bind e (e.slot hname) fun x y hx hxy => ?_
  unfold containerOf
  obtain ⟨hc, hd⟩ | ⟨c, d, hc, hd, hcd⟩ := Heap.option_rel_cases hxy.container?
  · rw [hc, hd]
    exact .error .refl e
  · rw [hc, hd]
    exact hnext x c d hx hc hcd

theorem parallel_structIn_bind {next next' : ContainerId → Action β} (e : Hosts T base w m n)
    (hname : name ∈ T.slots)
    (hnext : ∀ c d, m.slots.lookup name = some (.struct c) → w.containers.Maps c d →
      Parallel T base w R' (next c m) (next' d n)) :
    Parallel T base w R' ((structIn name >>= next) m) ((structIn name >>= next') n) := by
  rw [structIn, slot, bind_assoc, bind_assoc]
  refine parallel_find_bind e (e.slot hname) fun x y hx hxy => ?_
  cases hxy with
  | struct hcd => exact hnext _ _ hx hcd
  | _ => exact .error .refl e

theorem parallel_takeSlot (e : Hosts T base w m n) (hname : name ∈ T.own) :
    Parallel T base w Naming.Renames (takeSlot name m) (takeSlot name n) := by
  refine parallel_find_bind e (e.slot (T.own_subset hname)) fun x y _ hxy => ?_
  exact .ok .refl hxy (e.takeSlot hname)

theorem parallel_putSlot (e : Hosts T base w m n) (hname : name ∈ T.own) (hxy : w.Renames x y) :
    Parallel T base w (fun _ _ _ => True) (putSlot name x m) (putSlot name y n) := by
  have hold : List.Forall₂ w.Renames (m.slots.lookup name).toList (n.slots.lookup name).toList := by
    obtain ⟨hm, hn⟩ | ⟨_, _, hm, hn, hold⟩ := Heap.option_rel_cases (e.slot (T.own_subset hname))
    · rw [hm, hn]
      exact .nil
    · rw [hm, hn]
      exact .cons hold .nil
  have hput := e.putSlot hname hxy
  exact .ok .refl trivial (hput.withHeap .refl (e.heap.release hold))

end Rules

end Machine

end BoundedVm
