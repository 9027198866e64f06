import BoundedVm.Proofs.Clone.Filling
import BoundedVm.Proofs.Isolation.Operations

/-! # Clones in a host

The loop that fills the copies makes the same turns in a host as in the hosted heap: the queues of copies
are the same but for numbers, and each copy adds a number to the naming. -/

namespace BoundedVm

/-- Whether two queues are the same but for numbers. -/
structure Naming.RenamesQueue (w : Naming) (q r : CloneQueue) : Prop where
  entries : List.Forall₂ (fun a b => w.containers.Maps a.1 b.1 ∧ w.containers.Maps a.2 b.2)
    q.entries.toList r.entries.toList
  next : q.next = r.next

namespace Naming.RenamesQueue

variable {base : Heap} {w w' : Naming} {q r : CloneQueue}

theorem empty : w.RenamesQueue .empty .empty := ⟨.nil, rfl⟩

theorem mono (hq : w.RenamesQueue q r) (hw : w.Grows base w') : w'.RenamesQueue q r :=
  ⟨hq.entries.imp fun _ _ hab => ⟨hab.1.mono hw.containers, hab.2.mono hw.containers⟩, hq.next⟩

theorem push {copy copy' source source' : ContainerId} (hq : w.RenamesQueue q r)
    (hcopy : w.containers.Maps copy copy') (hsource : w.containers.Maps source source') :
    w.RenamesQueue (q.push copy source) (r.push copy' source') := by
  refine ⟨?_, hq.next⟩
  simp only [CloneQueue.push, Array.toList_push]
  exact List.rel_append hq.entries (.cons ⟨hcopy, hsource⟩ .nil)

/-- Both queues are at their end, or what comes next in them is the same but for numbers. -/
theorem pop? (hq : w.RenamesQueue q r) :
    q.pop? = none ∧ r.pop? = none
      ∨ ∃ copy source copy' source' rest rest', q.pop? = some ((copy, source), rest)
        ∧ r.pop? = some ((copy', source'), rest') ∧ w.containers.Maps copy copy'
        ∧ w.containers.Maps source source' ∧ w.RenamesQueue rest rest' := by
  have hentry := Heap.option_rel_getElem? hq.entries q.next
  rw [Array.getElem?_toList, Array.getElem?_toList] at hentry
  unfold CloneQueue.pop?
  rw [← hq.next]
  obtain ⟨ha, hb⟩ | ⟨a, b, ha, hb, hcopy, hsource⟩ := Heap.option_rel_cases hentry
  · rw [ha, hb]
    exact .inl ⟨rfl, rfl⟩
  · rw [ha, hb]
    exact .inr ⟨a.1, a.2, b.1, b.2, _, _, rfl, rfl, hcopy, hsource, hq.entries, by rw [hq.next]⟩

end Naming.RenamesQueue

namespace Heap.Hosts

variable {base h k : Heap} {w : Naming}

/-- **Filling copies.** The loop is refused in the host if it is refused in the hosted heap, for the same
reason, and makes the same copies. -/
theorem fillCopies {owner owner' : TrackerId} {target target' : ContainerId} {todo todo' : List Item}
    {queue queue' : CloneQueue} (e : Hosts base w h k) (howner : w.trackers.Maps owner owner')
    (htarget : w.containers.Maps target target') (htodo : List.Forall₂ w.Renames todo todo')
    (hqueue : w.RenamesQueue queue queue') (budget : Nat) :
    Parallel base w (fun _ _ _ => True) (h.fillCopies owner budget target todo queue)
      (k.fillCopies owner' budget target' todo' queue') := by
  induction budget, target, todo, queue, h using fillCopies_induction owner
    generalizing w k target' todo' queue' with
  | done budget target queue h hq =>
    cases htodo
    obtain ⟨-, hr⟩ | ⟨_, _, _, _, _, _, hsome, -⟩ := hqueue.pop?
    · rw [fillCopies_of_pop?_eq_none hq, fillCopies_of_pop?_eq_none hr]
      exact ⟨w, .refl, .ok trivial, e⟩
    · cases hq.symm.trans hsome
  | pop budget target queue h copy source rest hq ih =>
    cases htodo
    obtain ⟨hnone, -⟩ | ⟨_, _, copy', source', _, rest', hsome, hr, hcopy, hsource, hrest⟩ :=
      hqueue.pop?
    · cases hq.symm.trans hnone
    · cases hq.symm.trans hsome
      rw [fillCopies_of_pop?_eq_some hq, fillCopies_of_pop?_eq_some hr]
      exact ih e howner hcopy (e.items hsource) hrest
  | spent target queue h x todo =>
    obtain ⟨y, todo', -, -, rfl⟩ := List.forall₂_cons_left_iff.mp htodo
    rw [fillCopies_zero_cons, fillCopies_zero_cons]
    exact e.parallel_error _
  | full budget target todo queue h source fault h' hc =>
    obtain ⟨_, todo', hxy, -, rfl⟩ := List.forall₂_cons_left_iff.mp htodo
    cases hxy with
    | struct hsource =>
      obtain ⟨_, _, _, _, _, hleft, -⟩ | ⟨w', _, _, k', hleft, hright, hw, e'⟩ :=
        (e.create howner .nil).cases
      · cases hc.symm.trans hleft
      · cases hc.symm.trans hleft
        rw [fillCopies_of_create_eq_error hc, fillCopies_of_create_eq_error hright]
        exact (e'.parallel_error fault).of_grows hw
  | struct budget target todo queue h source copy h' hc ih =>
    obtain ⟨_, todo', hxy, hrest, rfl⟩ := List.forall₂_cons_left_iff.mp htodo
    cases hxy with
    | struct hsource =>
      obtain ⟨w', _, copy', _, k', hleft, hright, hw, hcopy, e'⟩ | ⟨_, _, _, _, hleft, -⟩ :=
        (e.create howner .nil).cases
      · cases hc.symm.trans hleft
        rw [fillCopies_of_create_eq_ok hc, fillCopies_of_create_eq_ok hright]
        -- what was named before the copy was made is named as before
        have htarget' := htarget.mono hw.containers
        exact (ih (e'.push htarget' (.struct hcopy)) (howner.mono hw.trackers) htarget'
          (Naming.forall₂_mono hrest hw)
          ((hqueue.mono hw).push hcopy (hsource.mono hw.containers))).of_grows hw
      · cases hc.symm.trans hleft
  | leaf budget target todo queue h x hx ih =>
    obtain ⟨y, todo', hxy, hrest, rfl⟩ := List.forall₂_cons_left_iff.mp htodo
    rw [fillCopies_leaf hx, fillCopies_leaf (hxy.isStruct_eq.symm.trans hx)]
    exact ih ((e.share hxy 1).push htarget hxy) howner htarget hrest hqueue

/-- **Cloning.** A clone in the host is a clone in the hosted heap, under the limits of the same
tracker. -/
theorem cloneStruct {s t : ContainerId} (e : Hosts base w h k) (hst : w.containers.Maps s t)
    (hs : h.alive s = true) (limits : Limits) :
    Parallel base w (fun w => w.containers.Maps) (h.cloneStruct s limits)
      (k.cloneStruct t limits) := by
  unfold Heap.cloneStruct
  obtain ⟨w', root, root', h', k', hleft, hright, hw, hroot, e'⟩
      | ⟨w', fault, h', k', hleft, hright, hw, e'⟩ :=
    (e.create (e.owner hst hs) .nil).cases
  · simp only [hleft, hright]
    -- the source is still there when the first copy has been made
    have hst' := hst.mono hw.containers
    have hs' : h'.alive s = true := by
      obtain ⟨-, -, rfl⟩ := create_eq_ok_iff.1 hleft
      rw [alive_enroll, hs, Bool.or_true]
    have hfilled := e'.fillCopies (e'.owner hst' hs') hroot (e'.items hst') .empty
      (limits.maxStackSize.toNat - 1)
    obtain ⟨w'', _, _, _, _, hleft, hright, hw', -, e''⟩
        | ⟨w'', fault, _, _, hleft, hright, hw', e''⟩ :=
      hfilled.cases
    · rw [hleft, hright]
      exact (e''.parallel_ok (hroot.mono hw'.containers)).of_grows (hw.trans hw')
    · rw [hleft, hright]
      -- the first copy is given up, and with it all others
      have hgiven := e''.release (.cons (.struct (hroot.mono hw'.containers)) .nil)
      exact (hgiven.parallel_error fault).of_grows (hw.trans hw')
  · simp only [hleft, hright]
    exact (e'.parallel_error fault).of_grows hw

end Heap.Hosts

end BoundedVm
