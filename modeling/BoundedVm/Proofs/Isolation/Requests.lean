import BoundedVm.Proofs.Isolation.Machine

/-! # Requests of a party

A request that names nothing but what its party may use has the same outcome in a machine and in its
host, except for the numbers of containers in an account.

* `Request.Within`: the requests that a party may make.
* `Machine.parallel_perform`: the outcome of such a request. -/

namespace BoundedVm

/-! ## What a party may name -/

/-- Whether a value is made of what a party may use. -/
def Operand.Within (T : Territory) : Operand → Prop
  | .copy slot | .element slot _ => slot ∈ T.slots
  | .move slot => slot ∈ T.own
  | _ => True

/-- Whether an operation uses nothing but what a party may use. A party registers no scripts: the
scripts there are belong to all. -/
def Operation.Within (T : Territory) : Operation → Prop
  | .openScope _ | .openTracker _ | .endScope | .account | .discard => True
  | .script _ => False
  | .make o | .outline o _ | .profile o | .boolean o | .integer o | .convert o _ | .describe o =>
    o.Within T
  | .create _ entries => ∀ entry ∈ entries, entry.1.Within T
  | .nest _ _ base before after _ => (∀ entry ∈ base, entry.1.Within T)
    ∧ (∀ entry ∈ before, entry.1.Within T) ∧ ∀ entry ∈ after, entry.1.Within T
  | .compare _ a b => a.Within T ∧ b.Within T
  | .push slot o _ | .set slot _ o => slot ∈ T.slots ∧ o.Within T
  | .drop slot => slot ∈ T.own
  | .clone slot | .toArray slot | .get slot _ | .remove slot _ | .clear slot | .length slot
  | .items slot | .owner slot => slot ∈ T.slots

/-- Whether a request is one that a party may make. -/
structure Request.Within (T : Territory) (r : Request) : Prop where
  scope : r.scope ∈ T.scopes
  store : ∀ slot ∈ r.store, slot ∈ T.own
  operation : r.operation.Within T

/-! ## What an answer tells -/

/-- Whether two answers are the same but for numbers; only accounts tell any. -/
def Naming.RenamesAnswer (w : Naming) : Answer → Answer → Prop
  | .account t, .account u => w.RenamesTracker t u
  | a, b => a = b

namespace Machine

variable {T : Territory} {base m n : Machine} {w w' : Naming} {name : String} {x y : Item}

/-! ## Values -/

theorem parallel_operand (e : Hosts T base w m n) {o : Operand} (ho : o.Within T) :
    Parallel T base w Naming.Renames (operand o m) (operand o n) := by
  cases o with
  | null => exact parallel_pure e .null
  | boolean b => exact parallel_pure e (.boolean b)
  | integer v =>
    rw [operand]
    refine parallel_onHeap e ?_
    exact e.heap.newInteger_of (Integer.ofInt v)
  | integerBytes bytes =>
    rw [operand]
    refine parallel_onHeap e ?_
    exact e.heap.newInteger_of (Integer.ofBytes bytes)
  | native i =>
    rw [operand]
    refine parallel_onHeap e ?_
    exact e.heap.newInteger (.ofNative i)
  | bytes content =>
    rw [operand]
    refine parallel_onHeap e ?_
    exact e.heap.newBytes content
  | pointer script position =>
    refine parallel_find_bind (S := (· = ·)) e ?_ fun s t _ hst => ?_
    · rw [e.scripts]
      cases n.scripts.lookup script with
      | none => exact .none
      | some s => exact .some rfl
    · rw [hst]
      exact parallel_pure e (.pointer t position)
  | copy slot =>
    refine parallel_find_bind e (e.slot ho) fun x y _ hxy => ?_
    exact parallel_modifyHeap_bind e (e.heap.share hxy 1) fun m' n' e' => parallel_pure e' hxy
  | move slot => exact parallel_takeSlot e ho
  | element slot index =>
    refine parallel_containerIn_bind e ho fun _ c d _ _ hcd => ?_
    exact parallel_onHeap e (e.heap.get hcd index)

theorem parallel_operands (e : Hosts T base w m n) {list : List (Operand × Nat)}
    (hlist : ∀ entry ∈ list, entry.1.Within T) {made made' : Array Item}
    (hmade : w.RenamesArray made made') :
    Parallel T base w Naming.RenamesArray (operands made list m) (operands made' list n) := by
  induction list generalizing w m n made made' with
  | nil => exact parallel_pure e hmade
  | cons entry list ih =>
    obtain ⟨o, copies⟩ := entry
    have ho : o.Within T := hlist _ List.mem_cons_self
    have hrest : ∀ entry ∈ list, entry.1.Within T :=
      fun entry hentry => hlist entry (List.mem_cons_of_mem _ hentry)
    refine (parallel_holding hmade (parallel_operand e ho)).bind fun w' x y m' n' _ hw hxy e' => ?_
    refine parallel_modifyHeap_bind e' (e'.heap.share hxy copies) fun m'' n'' e'' => ?_
    refine parallel_giveUp_bind e'' (.cons hxy .nil) fun m₃ n₃ e₃ => ?_
    exact ih e₃ hrest ((hmade.mono hw).append (.replicate hxy copies))

theorem parallel_keep (e : Hosts T base w m n) (hxy : w.Renames x y) {store : Option String}
    (hstore : ∀ slot ∈ store, slot ∈ T.own) :
    Parallel T base w Naming.RenamesAnswer (keep store x m) (keep store y n) := by
  have hview : Answer.value (m.heap.view x) = .value (n.heap.view y) :=
    congrArg Answer.value (e.heap.view_eq hxy)
  refine parallel_get_bind ?_
  cases store with
  | some name =>
    exact (parallel_putSlot e (hstore name rfl) hxy).bind
      fun w' _ _ m' n' _ _ _ e' => parallel_pure e' hview
  | none => exact parallel_giveUp_bind e (.cons hxy .nil) fun m' n' e' => parallel_pure e' hview

theorem parallel_keep_bind {act act' : Action Item}
    (hact : Parallel T base w Naming.Renames (act m) (act' n)) {store : Option String}
    (hstore : ∀ slot ∈ store, slot ∈ T.own) :
    Parallel T base w Naming.RenamesAnswer ((act >>= keep store) m) ((act' >>= keep store) n) :=
  hact.bind fun _ _ _ _ _ _ _ hxy e => parallel_keep e hxy hstore

theorem parallel_observe (e : Hosts T base w m n) {o : Operand} (ho : o.Within T)
    {look : Heap → Item → Except ValueFault Answer}
    (hlook : ∀ {w h k x y}, Heap.Hosts base.heap w h k → w.Renames x y →
      SameOutcome w.RenamesAnswer (look h x) (look k y)) :
    Parallel T base w Naming.RenamesAnswer (observe o look m) (observe o look n) := by
  refine (parallel_operand e ho).bind fun w' x y m' n' _ hw hxy e' => parallel_get_bind ?_
  refine parallel_giveUp_bind e' (.cons hxy .nil) fun m'' n'' e'' => ?_
  have hresult := hlook e'.heap hxy
  generalize look m'.heap x = left at hresult ⊢
  generalize look n'.heap y = right at hresult ⊢
  cases hresult with
  | ok hab => exact parallel_pure e'' hab
  | error fault => exact parallel_throw e'' _

theorem parallel_create (e : Hosts T base w m n) (kind : Compound) {t u : TrackerId}
    (htu : w.trackers.Maps t u) {xs ys : Array Item} (hxy : w.RenamesArray xs ys) :
    Parallel T base w Naming.Renames (create kind t xs m) (create kind u ys n) :=
  (parallel_onHeap e (e.heap.create htu hxy)).bind
    fun _ _ _ _ _ _ _ hcd e' => parallel_pure e' (.item kind hcd)

theorem parallel_accountOf (e : Hosts T base w m n) {t u : TrackerId} (htu : w.trackers.Maps t u) :
    Parallel T base w Naming.RenamesAnswer (accountOf t m) (accountOf u n) := by
  obtain ⟨a, b, ha, hb, hab⟩ := e.heap.exists_tracker? htu
  refine parallel_get_bind ?_
  rw [ha, hb]
  exact parallel_pure e hab

/-! ## Scopes -/

theorem parallel_endScope (e : Hosts T base w m n) (hname : name ∈ T.scopes) :
    Parallel T base w (fun _ => (· = ·)) (endScope name m) (endScope name n) := by
  unfold endScope
  obtain ⟨hs, ht⟩ | ⟨s, t, hs, ht, hst⟩ := Heap.option_rel_cases (e.scope hname)
  · rw [hs, ht]
    exact .ok .refl rfl e
  · simp only [hs, ht, ← hst.running]
    cases s.running with
    | false => exact .ok .refl rfl e
    | true =>
      have hended : w.RenamesScope { s with running := false } { t with running := false } :=
        { hst with running := rfl }
      have hdiscarded := e.withHeap .refl (e.heap.discard hst.tracker).2
      exact .ok .refl rfl (hdiscarded.putScope hname hended)

theorem parallel_openTracker (e : Hosts T base w m n) (hname : name ∈ T.scopes) (limit : Nat)
    (limits : Limits) (running : Bool) :
    Parallel T base w (fun _ _ _ => True) (openTracker name limit limits running m)
      (openTracker name limit limits running n) := by
  refine (parallel_endScope e hname).bind fun w₁ _ _ m₁ n₁ _ _ _ e₁ => ?_
  have hopened : Heap.Parallel base.heap w₁ (fun w => w.trackers.Maps)
      (.ok (m₁.heap.openTracker limit).1, (m₁.heap.openTracker limit).2)
      (.ok (n₁.heap.openTracker limit).1, (n₁.heap.openTracker limit).2) := by
    obtain ⟨w', hw, hnew, e'⟩ := e₁.heap.openTracker limit
    exact (e'.parallel_ok hnew).of_grows hw
  refine (parallel_onHeap e₁ hopened).bind fun w₂ t u m₂ n₂ _ _ htu e₂ => ?_
  exact .ok .refl trivial (e₂.putScope hname ⟨htu, rfl, rfl⟩)

theorem parallel_openScope (e : Hosts T base w m n) (hname : name ∈ T.scopes) (limits : Limits) :
    Parallel T base w (fun _ => (· = ·)) (openScope name limits m) (openScope name limits n) := by
  unfold openScope
  cases limits.validate with
  | error fault => exact parallel_throw e _
  | ok limits =>
    exact (parallel_openTracker e hname limits.maxStackSize.toNat limits true).bind
      fun _ _ _ _ _ _ _ _ e' => parallel_pure e' rfl

/-! ## Requests -/

variable {may : Heap.Effect → Prop} {P : Heap → List Item → Prop}

/-- A container in a slot exists. -/
theorem Holds.alive_of_lookup {held : List Item} (hm : m.Holds P held) (hP : Heap.Invariant may P)
    {c : ContainerId} (hx : m.slots.lookup name = some x) (hc : x.container? = some c) :
    m.heap.alive c = true :=
  hP.alive_of_mem hm.related (List.mem_append_left _ (mem_handles_of_lookup hx)) hc

/-- Two values made in turn, the first one being the receiver: a container that is there to be written. -/
theorem parallel_receiver_bind {β : Type} {R : Naming → β → β → Prop} (e : Hosts T base w m n)
    {slot : String} (hslot : slot ∈ T.slots) {o : Operand} (ho : o.Within T)
    {next : Item → Item → ContainerId → Action β}
    (hnext : ∀ {w m n r r' x y c d}, Hosts T base w m n → w.Renames r r' → w.Renames x y →
      w.containers.Maps c d → Parallel T base w R (next r x c m) (next r' y d n)) :
    let act : Action β := do
      let receiver ← operand (.copy slot)
      let x ← holding #[receiver] (operand o)
      let c ← holding #[x, receiver] (containerOf receiver)
      next receiver x c
    Parallel T base w R (act m) (act n) := by
  refine (parallel_operand (o := .copy slot) e hslot).bind fun w₁ r r' m₁ n₁ _ _ hr e₁ => ?_
  refine (parallel_holding (.single hr)
    (parallel_operand e₁ ho)).bind fun w₂ x y m₂ n₂ _ hw₂ hxy e₂ => ?_
  have hr' := hr.mono hw₂
  refine (parallel_holding (.pair hxy hr') (parallel_containerOf e₂ hr')).bind
    fun w₃ c d m₃ n₃ _ hw₃ hcd e₃ => ?_
  exact hnext e₃ (hr'.mono hw₃) (hxy.mono hw₃) hcd

/-- A value that is made from another one, which is given up. What is converted is held, so that a
container is there. -/
theorem parallel_derive (hP : Heap.Invariant may P) (hm : m.Holds P []) (e : Hosts T base w m n)
    {o : Operand} (ho : o.Within T) {store : Option String} (hstore : ∀ slot ∈ store, slot ∈ T.own)
    {f : Item → Heap → Except ValueFault Item × Heap}
    (hf : ∀ {w h k x y}, Heap.Hosts base.heap w h k → w.Renames x y →
      (∀ c, x.container? = some c → h.alive c = true) →
      Heap.Parallel base.heap w Naming.Renames (f x h) (f y k)) :
    let act : Action Answer := do
      let x ← operand o
      let y ← holding #[x] (onHeap (f x))
      giveUp [x]
      keep store y
    Parallel T base w Naming.RenamesAnswer (act m) (act n) := by
  refine (parallel_operand e ho).bind fun w₁ x y m₁ n₁ hx _ hxy e₁ => ?_
  have hheld := ends_operand hP hm o
  rw [hx] at hheld
  have halive : ∀ c, x.container? = some c → m₁.heap.alive c = true := fun c hc =>
    hP.alive_of_mem hheld.related (List.mem_append_right _ List.mem_cons_self) hc
  refine (parallel_holding (.single hxy) (parallel_onHeap e₁ (hf e₁.heap hxy halive))).bind
    fun w₂ i j m₂ n₂ _ hw₂ hij e₂ => ?_
  exact parallel_giveUp_bind e₂ (.cons (hxy.mono hw₂) .nil) fun m₃ n₃ e₃ =>
    parallel_keep e₃ hij hstore

/-- **A request does the same in a host.** Whether it is refused and what it answers is the same but for
numbers, and so is what the party sees afterwards; all else in the host is as it was. -/
theorem parallel_perform (hP : Heap.Invariant may P) (hm : m.Holds P []) (e : Hosts T base w m n)
    {r : Request} (hr : r.Within T) :
    Parallel T base w Naming.RenamesAnswer (perform r m) (perform r n) := by
  obtain ⟨scope, store, limits, operation⟩ := r
  obtain ⟨hscope, hstore, ho⟩ := hr
  unfold perform
  cases operation with
  | openScope limits =>
    exact (parallel_openScope e hscope limits).bind
      fun _ _ _ _ _ _ _ heq e' => parallel_pure e' (congrArg Answer.limits heq)
  | openTracker limit =>
    exact (parallel_openTracker e hscope limit .standard false).bind
      fun _ _ _ _ _ _ _ _ e' => parallel_pure e' rfl
  | endScope =>
    exact (parallel_endScope e hscope).bind
      fun _ _ _ _ _ _ _ heq e' => parallel_pure e' (congrArg Answer.flag heq)
  | account =>
    exact parallel_find_bind e (e.scope hscope) fun s t _ hst => parallel_accountOf e hst.tracker
  | discard =>
    refine parallel_find_bind e (e.scope hscope) fun s t _ hst => ?_
    obtain ⟨hcount, ek⟩ := e.heap.discard hst.tracker
    refine (parallel_onHeap (R := fun _ => (· = ·)) e ?_).bind
      fun _ _ _ _ _ _ _ heq e' => parallel_pure e' (congrArg Answer.count heq)
    exact ek.parallel_ok hcount
  | script name => exact ho.elim
  | make o => exact parallel_keep_bind (parallel_operand e ho) hstore
  | drop slot =>
    refine parallel_get_bind ?_
    obtain ⟨hx, hy⟩ | ⟨x, y, hx, hy, hxy⟩ := Heap.option_rel_cases (e.slot (T.own_subset ho))
    · rw [hx, hy]
      exact parallel_pure e rfl
    · rw [hx, hy]
      exact (parallel_takeSlot e ho).bind fun _ _ _ _ _ _ _ hxy e' =>
        parallel_giveUp_bind e' (.cons hxy .nil) fun _ _ e'' => parallel_pure e'' rfl
  | create kind items =>
    refine parallel_find_bind e (e.scope hscope) fun s t _ hst => ?_
    refine (parallel_operands e ho .nil).bind fun w' xs ys m' n' _ hw hxy e' => ?_
    exact parallel_keep_bind (parallel_create e' kind (hst.tracker.mono hw.trackers) hxy) hstore
  | nest kind depth inside before after copies =>
    obtain ⟨hinside, hbefore, hafter⟩ := ho
    refine parallel_find_bind e (e.scope hscope) fun s t _ hst => ?_
    refine (parallel_operands e hinside .nil).bind fun w₁ xs xs' m₁ n₁ _ hw₁ hx e₁ => ?_
    refine (parallel_holding hx (parallel_operands e₁ hbefore .nil)).bind
      fun w₂ ys ys' m₂ n₂ _ hw₂ hy e₂ => ?_
    refine (parallel_holding ((hx.mono hw₂).append hy) (parallel_operands e₂ hafter .nil)).bind
      fun w₃ zs zs' m₃ n₃ _ hw₃ hz e₃ => ?_
    -- the innermost container and the levels around it belong to the tracker of the scope
    have htracker := ((hst.tracker.mono hw₁.trackers).mono hw₂.trackers).mono hw₃.trackers
    have hextra := (hy.mono hw₃).append hz
    refine (parallel_holding hextra
      (parallel_onHeap e₃ (e₃.heap.create htracker ((hx.mono hw₂).mono hw₃)))).bind
      fun w₄ c d m₄ n₄ _ hw₄ hcd e₄ => ?_
    refine (parallel_holding (hextra.mono hw₄) (parallel_onHeap e₄
      (e₄.heap.nest (htracker.mono hw₄.trackers) kind ((hy.mono hw₃).mono hw₄) (hz.mono hw₄) copies
        depth hcd))).bind fun w₅ c' d' m₅ n₅ _ hw₅ hcd' e₅ => ?_
    exact parallel_giveUp_bind e₅ ((hextra.mono hw₄).mono hw₅) fun m₆ n₆ e₆ =>
      parallel_keep e₆ (.item kind hcd') hstore
  | compare test a b =>
    refine parallel_find_bind e (e.scope hscope) fun s t _ hst => ?_
    refine (parallel_operand e ho.1).bind fun w₁ x x' m₁ n₁ _ _ hx e₁ => ?_
    refine (parallel_holding (.single hx)
      (parallel_operand e₁ ho.2)).bind fun w₂ y y' m₂ n₂ _ hw₂ hy e₂ => ?_
    have hx' := hx.mono hw₂
    refine parallel_get_bind ?_
    refine parallel_giveUp_bind e₂ (.cons hx' (.cons hy .nil)) fun m₃ n₃ e₃ => ?_
    rw [← hst.limits, e₂.heap.compareBy_eq hx' hy]
    cases n₂.heap.compareBy (limits.getD s.limits) test x' y' with
    | ok equal => exact parallel_pure e₃ rfl
    | error fault => exact parallel_throw e₃ _
  | outline o depth =>
    exact parallel_observe e ho fun eh hxy => .ok (congrArg Answer.outline (eh.outline_eq depth hxy))
  | profile o =>
    refine parallel_observe e ho fun {w _ _ x y} eh hxy => ?_
    rw [hxy.kind_eq, hxy.number?_eq]
    exact .ok rfl
  | boolean o =>
    refine parallel_observe e ho fun {w _ _ x y} eh hxy => ?_
    rw [hxy.toBool_eq]
    cases y.toBool with
    | ok b => exact .ok rfl
    | error fault => exact .error fault
  | describe o =>
    exact parallel_observe e ho fun eh hxy => .ok (congrArg Answer.text (eh.describe_eq hxy))
  | integer o =>
    exact parallel_derive hP hm e ho hstore fun eh hxy _ => eh.integerOf hxy
  | convert o target =>
    exact parallel_derive hP hm e ho hstore fun eh hxy halive => eh.convert hxy target halive
  | clone slot =>
    refine parallel_find_bind e (e.scope hscope) fun s t _ hst => ?_
    refine parallel_structIn_bind e ho fun c d hc hcd => ?_
    rw [← hst.limits]
    refine (parallel_onHeap e (e.heap.cloneStruct hcd (hm.alive_of_lookup hP hc rfl) _)).bind
      fun _ _ _ _ _ _ _ hcd' e' => ?_
    exact parallel_keep e' (.struct hcd') hstore
  | toArray slot =>
    refine parallel_structIn_bind e ho fun c d hc hcd => ?_
    refine (parallel_onHeap e (e.heap.toArray hcd (hm.alive_of_lookup hP hc rfl))).bind
      fun _ _ _ _ _ _ _ hcd' e' => ?_
    exact parallel_keep e' (.array hcd') hstore
  | push slot o count =>
    refine parallel_receiver_bind e ho.1 ho.2 fun e₁ hr hxy hcd => ?_
    refine parallel_modifyHeap_bind e₁ (e₁.heap.pushCopies hcd hxy count)
      fun m₂ n₂ e₂ => parallel_get_bind ?_
    exact parallel_giveUp_bind e₂ (.cons hr .nil) fun m₃ n₃ e₃ =>
      parallel_pure e₃ (congrArg Answer.count (e₂.heap.size_items hcd))
  | set slot index o =>
    refine parallel_receiver_bind e ho.1 ho.2 fun e₁ hr hxy hcd => ?_
    refine (parallel_holding (.single hr)
      (parallel_onHeap e₁ (e₁.heap.set hcd index hxy))).bind fun w₂ _ _ m₂ n₂ _ hw₂ _ e₂ => ?_
    exact parallel_giveUp_bind e₂ (.cons (hr.mono hw₂) .nil) fun m₃ n₃ e₃ => parallel_pure e₃ rfl
  | get slot index =>
    refine parallel_containerIn_bind e ho fun _ c d _ _ hcd => ?_
    exact parallel_keep_bind (parallel_onHeap e (e.heap.get hcd index)) hstore
  | remove slot index =>
    refine parallel_containerIn_bind e ho fun _ c d _ _ hcd => ?_
    exact parallel_keep_bind (parallel_onHeap e (e.heap.remove hcd index)) hstore
  | clear slot =>
    refine parallel_containerIn_bind e ho fun _ c d _ _ hcd => ?_
    exact parallel_modifyHeap_bind e (e.heap.clear hcd) fun m' n' e' => parallel_pure e' rfl
  | length slot =>
    refine parallel_containerIn_bind e ho fun _ c d _ _ hcd => parallel_get_bind ?_
    exact parallel_pure e (congrArg Answer.length (e.heap.size_items hcd))
  | items slot =>
    refine parallel_containerIn_bind e ho fun _ c d _ _ hcd => parallel_get_bind ?_
    have hviews : (m.heap.items c).toList.map m.heap.view = (n.heap.items d).toList.map n.heap.view :=
      List.forall₂_eq_eq_eq ▸ List.rel_map (fun _ _ hxy => e.heap.view_eq hxy) (e.heap.items hcd)
    exact parallel_pure e (congrArg Answer.values hviews)
  | owner slot =>
    refine parallel_containerIn_bind e ho fun x c d hx hc hcd => parallel_get_bind ?_
    exact parallel_accountOf e (e.heap.owner hcd (hm.alive_of_lookup hP hx hc))

end Machine

end BoundedVm
