import BoundedVm.Machine.Request
import BoundedVm.Proofs.Heap.Invariant

/-! # What the requests to a machine keep

The heap of a machine is used by the operations of the heap alone, while the slots hold handles and
nothing else does: actions take over the handles that they are given and give up what they do not hand
on. Whatever the operations keep is therefore kept by every request that has no other effects.

* `Machine.Ends`: what an action leaves behind, with one rule for each way to compose actions.
* `Machine.Does`: the effects of a request.
* `Machine.ends_perform`: a request leaves no handles behind but those in the slots. -/

namespace BoundedVm

theorem perm_of_count_eq {xs ys : List Item} (hcount : ∀ x, xs.count x = ys.count x) :
    xs.Perm ys :=
  List.perm_iff_count.mpr hcount

/-- Each level takes over the handle to the level below it. -/
theorem Heap.Invariant.nest {may : Effect → Prop} {P : Heap → List Item → Prop}
    (hP : Invariant may P) (hmay : may .store) {h : Heap} {held before after : List Item}
    {c : ContainerId} {kind : Compound} (hr : P h ([kind.item c] ++ held)) (hbefore : ∀ x ∈ before, x ∈ held)
    (hafter : ∀ x ∈ after, x ∈ held) (t : TrackerId) (copies depth : Nat) :
    Heap.Leaves P held (fun c => [kind.item c]) (h.nest t kind before after copies depth c) := by
  induction depth generalizing h c with
  | zero => exact hr
  | succ depth ih =>
    have hfirst := hP.shareAll hr fun x hx => .inl (List.mem_cons_of_mem _ (hbefore x hx))
    have hinner := hP.share hfirst (.inl (List.mem_append_right _ List.mem_cons_self)) copies
    have hlast := hP.shareAll hinner fun x hx => .inl (List.mem_append_right _
      (List.mem_append_right _ (List.mem_cons_of_mem _ (hafter x hx))))
    -- the handle to the level below is given up after the copies of it have been made
    have hready : P (((h.shareAll before).share copies (kind.item c)).shareAll after)
        ([kind.item c]
          ++ ((before.toArray ++ Array.replicate copies (kind.item c) ++ after.toArray).toList
            ++ held)) := by
      refine hP.perm hlast (perm_of_count_eq fun y => ?_)
      simp only [List.count_append, Array.toList_append, Array.toList_replicate]
      omega
    have hcreated := hP.create hmay (hP.release hready) t kind
    rw [Heap.nest]
    split
    · rename_i hout
      rw [hout] at hcreated
      exact ih hcreated
    · rename_i hout
      rw [hout] at hcreated
      exact hcreated

namespace Machine

/-! ## Handles of a machine -/

/-- The handles in the slots. -/
def handles (m : Machine) : List Item := m.slots.map Prod.snd

/-- The heap is in a relation to the handles that the slots and some others hold, and no two slots bear
one name. -/
structure Holds (P : Heap → List Item → Prop) (m : Machine) (held : List Item) : Prop where
  related : P m.heap (m.handles ++ held)
  nodup : (m.slots.map Prod.fst).Nodup

/-- The outcome of an action leaves the handles that it hands over, if it is not refused, beside those
that others hold. -/
def Ends {α : Type} (P : Heap → List Item → Prop) (gives : α → List Item) (held : List Item) :
    EStateM.Result MachineFault Machine α → Prop
  | .ok a m => m.Holds P (gives a ++ held)
  | .error _ m => m.Holds P held

variable {may : Heap.Effect → Prop} {P : Heap → List Item → Prop}

section Rules

variable {α β : Type} {m : Machine} {held xs : List Item} {x : Item} {gives : α → List Item}

theorem Holds.perm (hm : m.Holds P held) (hP : Heap.Invariant may P) {held' : List Item}
    (hp : held.Perm held') : m.Holds P held' :=
  ⟨hP.perm hm.related (hp.append_left m.handles), hm.nodup⟩

theorem ends_pure {a : α} (hm : m.Holds P (gives a ++ held)) :
    Ends P gives held ((pure a : Action α) m) := hm

/-- Two actions in a row: the second takes over what the first hands over. -/
theorem Ends.bind {act : Action α} {next : α → Action β} {gives' : β → List Item}
    (hact : Ends P gives held (act m))
    (hnext : ∀ a m', act m = .ok a m' → m'.Holds P (gives a ++ held) →
      Ends P gives' held (next a m')) :
    Ends P gives' held ((act >>= next) m) := by
  show Ends P gives' held (EStateM.bind act next m)
  unfold EStateM.bind
  cases hout : act m with
  | ok a m' =>
    rw [hout] at hact
    exact hnext a m' hout hact
  | error e m' =>
    rw [hout] at hact
    exact hact

/-- To look at the machine changes nothing. -/
theorem ends_get_bind {next : Machine → Action β} {gives' : β → List Item}
    (hnext : Ends P gives' held (next m m)) : Ends P gives' held ((get >>= next) m) := hnext

/-- What does not concern heap and slots may change. -/
theorem ends_modify {f : Machine → Machine} (hheap : (f m).heap = m.heap)
    (hslots : (f m).slots = m.slots) (hm : m.Holds P held) :
    Ends P (fun _ => []) held ((modify f : Action Unit) m) := by
  show (f m).Holds P held
  refine ⟨?_, by rw [hslots]; exact hm.nodup⟩
  rw [hheap, handles, hslots]
  exact hm.related

theorem ends_onHeap (hP : Heap.Invariant may P) (gives : α → List Item) {f : Heap → Except ValueFault α × Heap}
    (hn : (m.slots.map Prod.fst).Nodup)
    (hf : Heap.Leaves P (m.handles ++ held) gives (f m.heap)) : Ends P gives held (onHeap f m) := by
  unfold onHeap
  cases hout : f m.heap with
  | mk result heap =>
    rw [hout] at hf
    cases result with
    | ok a =>
      simp only [hout]
      exact ⟨hP.perm hf (List.perm_append_comm_assoc _ _ _), hn⟩
    | error e =>
      simp only [hout]
      exact ⟨hf, hn⟩

theorem ends_modifyHeap {f : Heap → Heap} (hn : (m.slots.map Prod.fst).Nodup)
    (hf : P (f m.heap) (m.handles ++ held)) :
    Ends P (fun _ => []) held (modifyHeap f m) :=
  ⟨hf, hn⟩

/-- What cannot be refused may leave other handles than those that are held over what follows. -/
theorem ends_modifyHeap_bind {ys : List Item} {f : Heap → Heap} {next : Unit → Action β}
    {gives' : β → List Item} (hn : (m.slots.map Prod.fst).Nodup)
    (hf : P (f m.heap) (m.handles ++ ys))
    (hnext : ∀ m', m'.Holds P ys → Ends P gives' held (next () m')) :
    Ends P gives' held ((modifyHeap f >>= next) m) :=
  hnext _ ⟨hf, hn⟩

theorem ends_giveUp (hP : Heap.Invariant may P) (hm : m.Holds P (xs ++ held)) :
    Ends P (fun _ => []) held (giveUp xs m) :=
  ends_modifyHeap hm.nodup (hP.release (hP.perm hm.related (List.perm_append_comm_assoc _ _ _)))

theorem ends_giveUp_bind (hP : Heap.Invariant may P) {ys : List Item} {next : Unit → Action β} {gives' : β → List Item}
    (hm : m.Holds P (xs ++ ys)) (hnext : ∀ m', m'.Holds P ys → Ends P gives' held (next () m')) :
    Ends P gives' held ((giveUp xs >>= next) m) :=
  hnext _ (ends_giveUp hP hm)

/-- Further handles to what the machine holds. -/
theorem ends_share_bind (hP : Heap.Invariant may P) {ys : List Item} {next : Unit → Action β} {gives' : β → List Item}
    (hm : m.Holds P ys) (hx : x ∈ m.handles ++ ys) (n : Nat)
    (hnext : ∀ m', m'.Holds P (List.replicate n x ++ ys) → Ends P gives' held (next () m')) :
    Ends P gives' held ((modifyHeap (Heap.share n x) >>= next) m) := by
  refine ends_modifyHeap_bind hm.nodup ?_ hnext
  exact hP.perm (hP.share hm.related (.inl hx) n) (List.perm_append_comm_assoc _ _ _)

/-- An action that is done while handles are held gives them up if it is refused. -/
theorem ends_holding (hP : Heap.Invariant may P) {zs : Array Item} {act : Action α}
    (hact : Ends P gives (zs.toList ++ held) (act m)) :
    Ends P (fun a => gives a ++ zs.toList) held (holding zs act m) := by
  unfold holding
  cases hout : act m with
  | ok a m' =>
    rw [hout] at hact
    show m'.Holds P (gives a ++ zs.toList ++ held)
    rw [List.append_assoc]
    exact hact
  | error e m' =>
    rw [hout] at hact
    exact ends_giveUp hP hact

/-- A container to which a handle is held exists. -/
theorem ends_holding_containerOf_bind (hP : Heap.Invariant may P) {zs : Array Item} {next : ContainerId → Action β}
    {gives' : β → List Item} (hm : m.Holds P (zs.toList ++ held)) (hx : x ∈ zs.toList)
    (hnext : ∀ c, m.heap.alive c = true → Ends P gives' held (next c m)) :
    Ends P gives' held ((holding zs (containerOf x) >>= next) m) := by
  unfold containerOf
  cases hc : x.container? with
  | none => exact ends_giveUp hP hm
  | some c =>
    have hmem : x ∈ m.handles ++ (zs.toList ++ held) :=
      List.mem_append_right _ (List.mem_append_left _ hx)
    exact hnext c (hP.alive_of_mem hm.related hmem hc)

end Rules

/-! ## Slots -/

section Slots

variable {α : Type} {m : Machine} {held : List Item} {name : String}

/-- The entry of a name among entries of different names, and the others. -/
theorem perm_lookup_filter (name : String) {slots : List (String × Item)}
    (hn : (slots.map Prod.fst).Nodup) :
    (slots.map Prod.snd).Perm ((slots.lookup name).toList
      ++ (slots.filter (·.1 != name)).map Prod.snd) := by
  induction slots with
  | nil => exact .refl _
  | cons entry slots ih =>
    obtain ⟨other, x⟩ := entry
    rw [List.map_cons, List.nodup_cons] at hn
    by_cases hname : name = other
    · -- no later entry has the name
      subst hname
      have hothers : slots.filter (·.1 != name) = slots := by
        rw [List.filter_eq_self]
        intro entry hentry
        have hne : entry.1 ≠ name := fun heq => hn.1 (List.mem_map.mpr ⟨entry, hentry, heq⟩)
        simpa using hne
      simp [hothers]
    · -- the entry is one of the others
      have hlookup : ((other, x) :: slots).lookup name = slots.lookup name := by
        have hbeq : (name == other) = false := by simpa using hname
        rw [List.lookup_cons, hbeq]
      have hfilter : ((other, x) :: slots).filter (·.1 != name)
          = (other, x) :: slots.filter (·.1 != name) := by
        simp [Ne.symm hname]
      rw [hlookup, hfilter]
      exact ((ih hn.2).cons x).trans List.perm_middle.symm

theorem nodup_filter {slots : List (String × Item)} (hn : (slots.map Prod.fst).Nodup) :
    ((slots.filter (·.1 != name)).map Prod.fst).Nodup :=
  hn.sublist (List.filter_sublist.map _)

theorem nodup_putNamed {slots : List (String × Item)} (hn : (slots.map Prod.fst).Nodup)
    (x : Item) : ((putNamed name x slots).map Prod.fst).Nodup := by
  rw [putNamed, List.map_cons, List.nodup_cons]
  refine ⟨?_, nodup_filter hn⟩
  simp

/-- What is found under a name is the machine's; the machine stays as it is. -/
theorem ends_find_bind {β : Type} {names : Machine → List (String × β)} {next : β → Action α}
    {gives : α → List Item} (hm : m.Holds P held)
    (hnext : ∀ b, (names m).lookup name = some b → Ends P gives held (next b m)) :
    Ends P gives held ((find name names >>= next) m) := by
  show Ends P gives held (EStateM.bind (find name names) next m)
  unfold EStateM.bind find
  cases hb : (names m).lookup name with
  | none => exact hm
  | some b => exact hnext b hb

theorem mem_handles_of_lookup {x : Item} (hx : m.slots.lookup name = some x) : x ∈ m.handles := by
  obtain ⟨before, after, heq, -⟩ := List.lookup_eq_some_iff.mp hx
  rw [handles, heq]
  simp

/-- The container in a slot exists. -/
theorem ends_containerIn_bind (hP : Heap.Invariant may P) {next : ContainerId → Action α} {gives : α → List Item}
    (hm : m.Holds P held)
    (hnext : ∀ c, m.heap.alive c = true → Ends P gives held (next c m)) :
    Ends P gives held ((containerIn name >>= next) m) := by
  rw [containerIn, slot, bind_assoc]
  refine ends_find_bind hm fun x hx => ?_
  unfold containerOf
  cases hc : x.container? with
  | none => exact hm
  | some c =>
    have hmem : x ∈ m.handles ++ held := List.mem_append_left _ (mem_handles_of_lookup hx)
    exact hnext c (hP.alive_of_mem hm.related hmem hc)

theorem ends_structIn_bind (hP : Heap.Invariant may P) {next : ContainerId → Action α} {gives : α → List Item}
    (hm : m.Holds P held)
    (hnext : ∀ c, m.heap.alive c = true → Ends P gives held (next c m)) :
    Ends P gives held ((structIn name >>= next) m) := by
  rw [structIn, slot, bind_assoc]
  refine ends_find_bind hm fun x hx => ?_
  cases x with
  | struct c =>
    have hmem : .struct c ∈ m.handles ++ held := List.mem_append_left _ (mem_handles_of_lookup hx)
    exact hnext c (hP.alive_of_mem hm.related hmem rfl)
  | _ => exact hm

/-- A handle is taken out of its slot. -/
theorem ends_takeSlot (hP : Heap.Invariant may P) (hm : m.Holds P held) : Ends P (fun x => [x]) held (takeSlot name m) := by
  refine ends_find_bind hm fun x hx => ?_
  have hperm := perm_lookup_filter name hm.nodup
  rw [hx] at hperm
  refine ⟨hP.perm hm.related ?_, nodup_filter hm.nodup⟩
  exact (hperm.append_right held).trans List.perm_middle.symm

/-- A handle is put into a slot, and the one that was there is given up. -/
theorem ends_putSlot (hP : Heap.Invariant may P) {x : Item} (hm : m.Holds P (x :: held)) :
    Ends P (fun _ => []) held (putSlot name x m) := by
  have hperm := perm_lookup_filter name hm.nodup
  have hmoved : Holds P { m with slots := putNamed name x m.slots }
      ((m.slots.lookup name).toList ++ held) := by
    refine ⟨hP.perm hm.related ?_, nodup_putNamed hm.nodup x⟩
    have hall := (hperm.append_right (x :: held)).trans List.perm_middle
    refine hall.trans (List.Perm.cons x ?_)
    rw [List.append_assoc]
    exact List.perm_append_comm_assoc _ _ _
  exact ends_giveUp hP hmoved

end Slots

/-! ## Values -/

section Values

variable {m : Machine} {held : List Item}

theorem Holds.leaf (hm : m.Holds P held) (hP : Heap.Invariant may P) {x : Item} (hx : x.container? = none) :
    m.Holds P ([x] ++ held) :=
  ⟨hP.perm (hP.leaf hm.related hx) List.perm_middle.symm, hm.nodup⟩

theorem ends_operand (hP : Heap.Invariant may P) (hm : m.Holds P held) (o : Operand) :
    Ends P (fun x => [x]) held (operand o m) := by
  cases o with
  | null => exact hm.leaf hP rfl
  | boolean b => exact hm.leaf hP rfl
  | integer v =>
    rw [operand]
    refine ends_onHeap hP _ hm.nodup ?_
    cases Integer.ofInt v with
    | ok i => exact hP.newInteger hm.related i
    | error e => exact hm.related
  | integerBytes bytes =>
    rw [operand]
    refine ends_onHeap hP _ hm.nodup ?_
    cases Integer.ofBytes bytes with
    | ok i => exact hP.newInteger hm.related i
    | error e => exact hm.related
  | native n =>
    rw [operand]
    refine ends_onHeap hP _ hm.nodup ?_
    exact hP.newInteger hm.related _
  | bytes content =>
    rw [operand]
    refine ends_onHeap hP _ hm.nodup ?_
    exact hP.newBytes hm.related content
  | pointer script position => exact ends_find_bind hm fun number _ => hm.leaf hP rfl
  | copy name =>
    -- the slot keeps its handle, and a further one is handed over
    refine ends_find_bind hm fun x hx => ?_
    have hmem : x ∈ m.handles ++ held := List.mem_append_left _ (mem_handles_of_lookup hx)
    exact ends_share_bind hP hm hmem 1 fun m' hm' => hm'
  | move name => exact ends_takeSlot hP hm
  | element name index =>
    refine ends_containerIn_bind hP hm fun c _ => ?_
    exact ends_onHeap hP _ hm.nodup (hP.get hm.related c index)

theorem ends_operands (hP : Heap.Invariant may P) {made : Array Item} {list : List (Operand × Nat)}
    (hm : m.Holds P (made.toList ++ held)) :
    Ends P (fun xs => xs.toList) held (operands made list m) := by
  induction list generalizing made m with
  | nil => exact hm
  | cons entry list ih =>
    obtain ⟨o, n⟩ := entry
    refine (ends_holding hP (ends_operand hP hm o)).bind fun x m' _ hx => ?_
    -- the copies are made while the handle itself is held, which is given up then
    refine ends_share_bind hP hx (List.mem_append_right _ List.mem_cons_self) n
      fun m' hcopies => ?_
    have hgive : m'.Holds P ([x] ++ ((made ++ Array.replicate n x).toList ++ held)) := by
      refine hcopies.perm hP (perm_of_count_eq fun y => ?_)
      simp only [List.count_append, Array.toList_append, Array.toList_replicate]
      omega
    exact ends_giveUp_bind hP hgive fun m' hrest => ih hrest

/-- Several values are made from nothing. -/
theorem ends_operands_empty (hP : Heap.Invariant may P) (hm : m.Holds P held)
    (list : List (Operand × Nat)) : Ends P (fun xs => xs.toList) held (operands #[] list m) :=
  ends_operands hP hm

/-- A result is put into a slot or given up. -/
theorem ends_keep (hP : Heap.Invariant may P) {x : Item} (hm : m.Holds P ([x] ++ held))
    (store : Option String) : Ends P (fun _ => []) held (keep store x m) := by
  refine ends_get_bind ?_
  cases store with
  | some name =>
    have hput : Ends P (fun _ => []) held (putSlot name x m) := ends_putSlot hP hm
    exact hput.bind fun _ m' _ hm' => ends_pure hm'
  | none => exact (ends_giveUp hP hm).bind fun _ m' _ hm' => ends_pure hm'

theorem ends_keep_bind (hP : Heap.Invariant may P) {act : Action Item}
    (hact : Ends P (fun x => [x]) held (act m)) (store : Option String) :
    Ends P (fun _ => []) held ((act >>= keep store) m) :=
  hact.bind fun _ _ _ hm' => ends_keep hP hm' store

theorem ends_observe (hP : Heap.Invariant may P) (hm : m.Holds P held) (o : Operand)
    (look : Heap → Item → Except ValueFault Answer) :
    Ends P (fun _ => []) held (observe o look m) := by
  refine (ends_operand hP hm o).bind fun x m' _ hx => ends_get_bind ?_
  refine ends_giveUp_bind hP hx fun m'' hm'' => ?_
  cases look m'.heap x with
  | ok answer => exact hm''
  | error e => exact hm''

theorem ends_create (hP : Heap.Invariant may P) (hmay : may .store) {xs : Array Item}
    (hm : m.Holds P (xs.toList ++ held)) (kind : Compound) (t : TrackerId) :
    Ends P (fun x => [x]) held (create kind t xs m) := by
  have hr : P m.heap (xs.toList ++ (m.handles ++ held)) :=
    hP.perm hm.related (List.perm_append_comm_assoc _ _ _)
  exact (ends_onHeap hP _ hm.nodup (hP.create hmay hr t kind)).bind fun c m' _ hm' => hm'

theorem ends_accountOf (hm : m.Holds P held) (t : TrackerId) :
    Ends P (fun _ => []) held (accountOf t m) := by
  refine ends_get_bind ?_
  cases m.heap.tracker? t with
  | some account => exact hm
  | none => exact hm

end Values

/-! ## Scopes -/

/-- The tracker of an execution that has not ended. -/
def running? (m : Machine) (name : String) : Option TrackerId :=
  ((m.scopes.lookup name).filter Scope.running).map Scope.tracker

section Scopes

variable {m : Machine} {held : List Item} {name : String}

theorem ends_endScope (hP : Heap.Invariant may P) (hm : m.Holds P held)
    (hmay : ∀ t, m.running? name = some t → may (.discard t)) :
    Ends P (fun _ => []) held (endScope name m) := by
  unfold running? at hmay
  unfold endScope
  cases hs : m.scopes.lookup name with
  | none => exact hm
  | some s =>
    cases hrunning : s.running with
    | false =>
      simp only [hrunning]
      exact hm
    | true =>
      have ht : may (.discard s.tracker) := hmay _ (by simp [hs, hrunning])
      simp only [hrunning, if_true]
      exact ⟨hP.discard ht hm.related, hm.nodup⟩

theorem ends_openTracker (hP : Heap.Invariant may P) (hm : m.Holds P held)
    (hmay : ∀ t, m.running? name = some t → may (.discard t)) (limit : Nat) (limits : Limits)
    (running : Bool) : Ends P (fun _ => []) held (openTracker name limit limits running m) := by
  refine (ends_endScope hP hm hmay).bind fun _ m' _ hm' => ?_
  refine Ends.bind (ends_onHeap hP (fun _ => []) hm'.nodup ?_) fun t m'' _ hm'' => ?_
  · exact hP.openTracker hm'.related limit
  · exact ends_modify rfl rfl hm''

theorem ends_openScope (hP : Heap.Invariant may P) (hm : m.Holds P held) {limits : Limits}
    (hmay : limits.validate.isOk → ∀ t, m.running? name = some t → may (.discard t)) :
    Ends P (fun _ => []) held (openScope name limits m) := by
  unfold openScope
  cases hl : limits.validate with
  | error e => exact hm
  | ok limits =>
    have ht := hmay (by rw [hl]; rfl)
    exact (ends_openTracker hP hm ht limits.maxStackSize.toNat limits true).bind
      fun _ m' _ hm' => hm'

end Scopes

end Machine

/-! ## Requests -/

/-- Whether an operation may make a container or put something into one. -/
def Operation.stores : Operation → Bool
  | .create .. | .nest .. | .clone _ | .toArray _ | .convert .. | .push .. | .set .. => true
  | _ => false

namespace Machine

/-- The tracker whose containers a request discards. -/
def discarded? (m : Machine) (r : Request) : Option TrackerId :=
  match r.operation with
  | .discard => (m.scopes.lookup r.scope).map Scope.tracker
  | .endScope | .openTracker _ => m.running? r.scope
  | .openScope limits => if limits.validate.isOk then m.running? r.scope else none
  | _ => none

/-- The effects that a request may have. -/
def Does (m : Machine) (r : Request) : Heap.Effect → Prop
  | .store => r.operation.stores = true
  | .discard t => m.discarded? r = some t

/-- **A request leaves no handle behind.** Whatever a request makes or copies is in a slot afterwards, in
a container or given up, whether the request is refused or not. -/
theorem ends_perform {m : Machine} (hP : Heap.Invariant may P) (hm : m.Holds P []) (r : Request)
    (hmay : ∀ e, m.Does r e → may e) : Ends P (fun _ => []) [] (perform r m) := by
  obtain ⟨scope, store, limits, operation⟩ := r
  unfold perform
  cases operation with
  | openScope limits =>
    refine (ends_openScope hP hm fun hl t ht => hmay (.discard t) ?_).bind fun _ m' _ hm' => hm'
    exact (if_pos hl).trans ht
  | openTracker limit =>
    exact (ends_openTracker hP hm (fun t => hmay (.discard t)) limit .standard false).bind
      fun _ m' _ hm' => hm'
  | endScope =>
    exact (ends_endScope hP hm fun t => hmay (.discard t)).bind fun _ m' _ hm' => hm'
  | account => exact ends_find_bind hm fun s _ => ends_accountOf hm s.tracker
  | discard =>
    refine ends_find_bind hm fun s hs => ?_
    refine (ends_onHeap hP (fun _ => []) hm.nodup ?_).bind fun n m' _ hm' => hm'
    exact hP.discard (hmay (.discard s.tracker) (congrArg (Option.map Scope.tracker) hs)) hm.related
  | script name =>
    refine ends_get_bind ?_
    exact (ends_modify rfl rfl hm).bind fun _ m' _ hm' => hm'
  | make o => exact ends_keep_bind hP (ends_operand hP hm o) store
  | drop name =>
    refine ends_get_bind ?_
    split
    · exact (ends_takeSlot hP hm).bind fun x m' _ hx => ends_giveUp_bind hP hx fun m'' hm'' => hm''
    · exact hm
  | create kind items =>
    refine ends_find_bind hm fun s _ => ?_
    refine (ends_operands hP hm).bind fun xs m' _ hxs => ?_
    exact ends_keep_bind hP (ends_create hP (hmay .store rfl) hxs kind s.tracker) store
  | nest kind depth base before after copies =>
    refine ends_find_bind hm fun s _ => ?_
    refine (ends_operands_empty hP hm base).bind fun base m₁ _ hbase => ?_
    refine (ends_holding hP (ends_operands_empty hP hbase before)).bind fun before m₂ _ hbefore => ?_
    -- what was made before is held while the next list is made
    have hboth : m₂.Holds P ((base ++ before).toList ++ []) := by
      refine hbefore.perm hP (perm_of_count_eq fun y => ?_)
      simp only [List.count_append, Array.toList_append]
      omega
    refine (ends_holding hP (ends_operands_empty hP hboth after)).bind fun after m₃ _ hafter => ?_
    -- the innermost container takes over the first list only
    have hbase : P m₃.heap
        (base.toList ++ (m₃.handles ++ ((before ++ after).toList ++ []))) := by
      refine hP.perm hafter.related (perm_of_count_eq fun y => ?_)
      simp only [List.count_append, Array.toList_append]
      omega
    refine (ends_holding hP (ends_onHeap hP _ hafter.nodup (hP.create (hmay .store rfl) hbase s.tracker kind))).bind
      fun inner m₄ _ hinner => ?_
    have hhandle : P m₄.heap
        ([kind.item inner] ++ (m₄.handles ++ ((before ++ after).toList ++ []))) := by
      refine hP.perm hinner.related (perm_of_count_eq fun y => ?_)
      simp only [List.count_append]
      omega
    have hextra : ∀ y ∈ before.toList ++ after.toList,
        y ∈ m₄.handles ++ ((before ++ after).toList ++ []) := by
      intro y hy
      rw [Array.toList_append, List.append_nil]
      exact List.mem_append_right _ hy
    have hnest := hP.nest (hmay .store rfl) hhandle (fun y hy => hextra y (List.mem_append_left _ hy))
      (fun y hy => hextra y (List.mem_append_right _ hy)) s.tracker copies depth
    refine (ends_holding hP (ends_onHeap hP _ hinner.nodup hnest)).bind fun outer m₅ _ houter => ?_
    have hgive : m₅.Holds P ((before ++ after).toList ++ [kind.item outer]) := by
      refine houter.perm hP (perm_of_count_eq fun y => ?_)
      simp only [List.count_append, List.count_nil]
      omega
    exact ends_giveUp_bind hP hgive fun m₆ hm₆ => ends_keep hP hm₆ store
  | compare test a b =>
    refine ends_find_bind hm fun s _ => ?_
    refine (ends_operand hP hm a).bind fun x m₁ _ hx => ?_
    refine (ends_holding hP (ends_operand hP hx b)).bind fun y m₂ _ hy => ?_
    refine ends_get_bind ?_
    refine ends_giveUp_bind hP (hy.perm hP (.swap x y [])) fun m₃ hm₃ => ?_
    cases m₂.heap.compareBy (limits.getD s.limits) test x y with
    | ok equal => exact hm₃
    | error e => exact hm₃
  | outline o depth => exact ends_observe hP hm o _
  | profile o => exact ends_observe hP hm o _
  | boolean o => exact ends_observe hP hm o _
  | integer o =>
    refine (ends_operand hP hm o).bind fun x m₁ _ hx => ?_
    refine (ends_holding hP (ends_onHeap hP _ hx.nodup (hP.integerOf hx.related x))).bind
      fun y m₂ _ hy => ?_
    exact ends_giveUp_bind hP (hy.perm hP (.swap x y [])) fun m₃ hm₃ => ends_keep hP hm₃ store
  | convert o target =>
    refine (ends_operand hP hm o).bind fun x m₁ _ hx => ?_
    -- the value is held during its conversion, so that it can be shared
    have hmem : x ∈ m₁.handles ++ ([x] ++ []) := List.mem_append_right _ List.mem_cons_self
    refine (ends_holding hP (ends_onHeap hP _ hx.nodup (hP.convert (hmay .store rfl) hx.related hmem target))).bind
      fun y m₂ _ hy => ?_
    exact ends_giveUp_bind hP (hy.perm hP (.swap x y [])) fun m₃ hm₃ => ends_keep hP hm₃ store
  | describe o => exact ends_observe hP hm o _
  | clone name =>
    refine ends_find_bind hm fun s _ => ends_structIn_bind hP hm fun c hc => ?_
    refine (ends_onHeap hP _ hm.nodup (hP.cloneStruct (hmay .store rfl) hm.related hc _)).bind fun c m' _ hm' => ?_
    exact ends_keep hP hm' store
  | toArray name =>
    refine ends_structIn_bind hP hm fun c _ => ?_
    refine (ends_onHeap hP _ hm.nodup (hP.toArray (hmay .store rfl) hm.related c)).bind fun c m' _ hm' => ?_
    exact ends_keep hP hm' store
  | push name o count =>
    refine (ends_operand hP hm (.copy name)).bind fun receiver m₁ _ hreceiver => ?_
    refine (ends_holding hP (ends_operand hP hreceiver o)).bind fun x m₂ _ hx => ?_
    refine ends_holding_containerOf_bind hP hx (by simp) fun c hc => ?_
    have hready : P m₂.heap (x :: (m₂.handles ++ [receiver])) :=
      hP.perm hx.related List.perm_middle
    refine ends_modifyHeap_bind hx.nodup (hP.pushCopies (hmay .store rfl) hready hc count) fun m₃ hm₃ => ?_
    exact ends_get_bind (ends_giveUp_bind hP hm₃ fun m₄ hm₄ => hm₄)
  | set name index o =>
    refine (ends_operand hP hm (.copy name)).bind fun receiver m₁ _ hreceiver => ?_
    refine (ends_holding hP (ends_operand hP hreceiver o)).bind fun x m₂ _ hx => ?_
    refine ends_holding_containerOf_bind hP hx (by simp) fun c hc => ?_
    have hready : P m₂.heap (x :: (m₂.handles ++ [receiver])) :=
      hP.perm hx.related List.perm_middle
    refine (ends_holding hP (ends_onHeap hP _ hx.nodup (hP.set (hmay .store rfl) hready c index))).bind fun _ m₃ _ hm₃ => ?_
    exact ends_giveUp_bind hP hm₃ fun m₄ hm₄ => hm₄
  | get name index =>
    refine ends_containerIn_bind hP hm fun c _ => ?_
    exact ends_keep_bind hP (ends_onHeap hP _ hm.nodup (hP.get hm.related c index)) store
  | remove name index =>
    refine ends_containerIn_bind hP hm fun c _ => ?_
    exact ends_keep_bind hP (ends_onHeap hP _ hm.nodup (hP.remove hm.related c index)) store
  | clear name =>
    refine ends_containerIn_bind hP hm fun c hc => ?_
    exact (ends_modifyHeap hm.nodup (hP.clear hm.related hc)).bind fun _ m' _ hm' => hm'
  | length name => exact ends_containerIn_bind hP hm fun c _ => ends_get_bind hm
  | items name => exact ends_containerIn_bind hP hm fun c _ => ends_get_bind hm
  | owner name =>
    exact ends_containerIn_bind hP hm fun c _ => ends_get_bind (ends_accountOf hm _)

end Machine

end BoundedVm
