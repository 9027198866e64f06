import BoundedVm.Proofs.Clone.Budget
import BoundedVm.Proofs.Comparison.Symmetry

/-! # A clone compares equal to its source

The comparison of a struct with a clone of it goes through the unfolding that the clone went through,
and pays for it what the clone paid: one unit for the two structs, and one for every element below
them. The leaves in it are the same references, whatever they hold, so that none of them is looked at.

* `Heap.Twinned`: a relation between items of which the comparison finds out no more than that.
* `comparePairs_of_twinned`: the walk over twinned pairs ends within a budget of the size of their
  unfolding.
* `compareStruct_cloneStruct`: the statement for a clone, from either side. -/

namespace BoundedVm

namespace Heap

variable {h : Heap} {limits : Limits}

/-- A relation under which leaves are the same reference, and structs are different ones with related
elements. -/
def Twinned (h : Heap) (R : Item → Item → Prop) : Prop :=
  ∀ {a b : Item}, R a b → a = b ∧ a.isStruct = false ∨
    ∃ s t, a = .struct s ∧ b = .struct t ∧ s ≠ t ∧
      List.Forall₂ R (h.items s).toList (h.items t).toList

/-! ## The walk over twinned pairs -/

/-- The order of the items does not matter for what they unfold to. -/
theorem countAll_reverse (P : Item → Prop) (xs : List Item) :
    h.countAll P xs.reverse = h.countAll P xs := by
  rw [countAll, countAll, List.map_reverse, List.sum_reverse]

theorem map_fst_elementPairs {s t : ContainerId} (hst : (h.items s).size = (h.items t).size) :
    (h.elementPairs s t).map Prod.fst = (h.items s).toList.reverse :=
  List.map_fst_zip (by simp [hst])

/-- Pairs of elements of two structs are related if the elements are, in whatever order they come. -/
theorem forall_mem_elementPairs {R : Item → Item → Prop} {s t : ContainerId}
    (hst : List.Forall₂ R (h.items s).toList (h.items t).toList) :
    ∀ p ∈ h.elementPairs s t, R p.1 p.2 := by
  intro p hp
  have hreverse := List.forall₂_reverse_iff.mpr hst
  exact (List.forall₂_iff_zip.mp hreverse).2 hp

/-- **The cost of twinned pairs.** A walk over twinned pairs finds them equal if its budget is not
smaller than the unfolding of their left sides. -/
theorem comparePairs_of_twinned {R : Item → Item → Prop} (hR : h.Twinned R) {budget : Nat}
    {pending : List (Item × Item)} (hpending : ∀ p ∈ pending, R p.1 p.2)
    (hcost : h.countAll (fun _ => True) (pending.map Prod.fst) ≤ budget) :
    h.comparePairs limits budget pending = .ok true := by
  induction budget generalizing pending with
  | zero =>
    cases pending with
    | nil => rfl
    | cons p pending =>
      -- the pair itself has a place in the unfolding
      rw [List.map_cons, countAll_cons, countFrom_of_holds trivial, add_assoc] at hcost
      simp at hcost
  | succ budget ih =>
    cases pending with
    | nil => rfl
    | cons p pending =>
      obtain ⟨a, b⟩ := p
      obtain ⟨hab : R a b, hrest⟩ := List.forall_mem_cons.mp hpending
      have hbelow : h.countAll (fun _ => True) (h.children a)
          + h.countAll (fun _ => True) (pending.map Prod.fst) ≤ budget := by
        rwa [List.map_cons, countAll_cons, countFrom_of_holds trivial, add_assoc,
          one_add_le_succ_iff] at hcost
      rw [comparePairs]
      rcases hR hab with ⟨rfl, hleaf⟩ | ⟨s, t, rfl, rfl, hne, hst⟩
      · -- nothing lies below a leaf
        rw [children_of_isStruct_eq_false hleaf, countAll_nil, zero_add] at hbelow
        rw [pairStep_of_isStruct_eq_false h limits hleaf hleaf, if_pos rfl]
        exact ih hrest hbelow
      · -- the elements of the two structs come before the other pairs
        have hsize : (h.items s).size = (h.items t).size := by simpa using hst.length_eq
        have helements : h.countAll (fun _ => True)
            ((h.elementPairs s t ++ pending).map Prod.fst) ≤ budget := by
          rw [List.map_append, map_fst_elementPairs hsize, countAll_append, countAll_reverse]
          exact hbelow
        have hrelated : ∀ p ∈ h.elementPairs s t ++ pending, R p.1 p.2 :=
          List.forall_mem_append.mpr ⟨forall_mem_elementPairs hst, hrest⟩
        rw [pairStep_struct_struct, if_neg hne, if_pos hsize]
        exact ih hrelated helements

/-! ## The clone of a struct -/

variable {before : Heap} {s target : ContainerId} {owner : TrackerId} {queue : CloneQueue}

/-- At the end of the loop an item and what mirrors it are twinned: the structs that were copied are
as they were. -/
theorem Filling.twinned_mirrors (hf : Filling before s owner target [] queue h)
    (hq : queue.pop? = none) : h.Twinned (Mirrors before.created (queue.sources s)) := by
  intro a b hab
  cases hab with
  | leaf ha => exact .inl ⟨rfl, ha⟩
  | @copy d i hd =>
    have hold : d < before.created := hf.source_lt d (List.mem_of_getElem? hd)
    refine .inr ⟨d, before.created + i, rfl, rfl, Nat.ne_of_lt (Nat.lt_add_right i hold), ?_⟩
    rw [hf.items_old hold]
    exact hf.forall₂_mirrors hq hd

/-- What a struct that existed before unfolds to is the same after the loop. -/
theorem Filling.itemAt?_eq (hb : before.WellFormed)
    (hf : Filling before s owner target [] queue h) {x : Item}
    (hx : ∀ d, x = .struct d → d < before.created) (path : List Nat) :
    h.itemAt? x path = before.itemAt? x path := by
  induction path generalizing x with
  | nil => rfl
  | cons i path ih =>
    have hchildren : h.children x = before.children x := by
      cases x with
      | struct d =>
        rw [children_struct, children_struct, hf.items_old (hx d rfl)]
      | _ => rfl
    rw [itemAt?_cons, itemAt?_cons, hchildren]
    cases hy : (before.children x)[i]? with
    | none => rfl
    | some y =>
      refine ih fun d hd => ?_
      subst hd
      -- the element of a struct that existed before existed before too
      cases x with
      | struct e => exact hb.lt_created_of_struct (List.mem_of_getElem? hy)
      | _ => simp [children] at hy

/-- **A clone equals its source within the same limits.** If the clone of a struct is not refused, the
comparison of the two under the limits of the clone finds them equal, from either side and whatever the
byte strings in them; it is not refused either. -/
theorem compareStruct_cloneStruct {h h' : Heap} {s c : ContainerId} (hh : h.WellFormed)
    (hs : h.alive s = true) (hl : limits.validate = .ok limits)
    (hc : h.cloneStruct s limits = (.ok c, h')) :
    h'.compareStruct limits s (.struct c) = .ok true ∧
      h'.compareStruct limits c (.struct s) = .ok true := by
  have hlt : s < h.created := lt_created_of_alive hs
  obtain ⟨account, ht⟩ := hh.exists_tracker? hs
  obtain ⟨rfl, target, queue, hf, hq⟩ := exists_filling_of_cloneStruct hh hlt hc
  -- the clone has paid for the unfolding of the struct, which is still the same
  have hpaid : 1 + h.elementCount s ≤ limits.maxStackSize.toNat := by
    have hcharged := cloneStruct_charged hh hlt hl ht
    rw [hc] at hcharged
    exact hcharged.1
  have hsame : h'.countFrom (fun _ => True) (.struct s) = 1 + h.elementCount s := by
    have hpaths : h'.pathsTo (fun _ => True) (.struct s) = h.pathsTo (fun _ => True) (.struct s) := by
      simp only [pathsTo, hf.itemAt?_eq hh (fun d hd => (Item.struct.inj hd) ▸ hlt)]
    rw [countFrom, hpaths, ← countFrom, countFrom_of_holds trivial, elementCount, countBelow_eq]
  have hequal : h'.compareStruct limits s (.struct h.created) = .ok true := by
    rw [compareStruct_struct]
    refine comparePairs_of_twinned (hf.twinned_mirrors hq) ?_ ?_
    · simpa using Filling.mirrors_root queue
    · rw [List.map_singleton, countAll_cons, countAll_nil, add_zero, hsame]
      exact hpaid
  exact ⟨hequal, (compareStruct_comm _ _).trans hequal⟩

/-- A struct that holds a byte string of two bytes and twice a struct of another tracker. -/
def longTwice : Heap :=
  ⟨#[some ⟨#[.struct 1, .bytes 0 [1, 2], .struct 1], 0, 1⟩, some ⟨#[.null], 1, 2⟩],
    #[⟨4, 1, 1, #[0]⟩, ⟨1, 1, 1, #[1]⟩], 1⟩

theorem compareStruct_cloneStruct_longTwice :
    longTwice.WellFormed ∧ longTwice.alive 0 = true ∧ Limits.validate ⟨6, 1⟩ = .ok ⟨6, 1⟩ ∧
      (longTwice.cloneStruct 0 ⟨6, 1⟩).1 = .ok 2 ∧
      (longTwice.cloneStruct 0 ⟨6, 1⟩).2.compareStruct ⟨6, 1⟩ 0 (.struct 2) = .ok true := by
  have hwell : longTwice.WellFormed := by decide
  have halive : longTwice.alive 0 = true := by decide
  have hl : Limits.validate ⟨6, 1⟩ = .ok ⟨6, 1⟩ := by decide
  have hclone : (longTwice.cloneStruct 0 ⟨6, 1⟩).1 = .ok 2 := by cbv
  exact ⟨hwell, halive, hl, hclone,
    (compareStruct_cloneStruct hwell halive hl (Prod.ext hclone rfl)).1⟩

end Heap

end BoundedVm
