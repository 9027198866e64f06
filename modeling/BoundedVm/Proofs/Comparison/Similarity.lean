import BoundedVm.Proofs.Comparison.Pruning
import BoundedVm.Proofs.Heap.Path
import Mathlib.Data.List.Forall2

/-! # What the comparison of two items means

On a cyclic heap the equality of items cannot be defined by recursion. `Heap.Similar` is the largest
relation under which structs agree element by element and all other items show the same content.

* `similar_iff_not_apart`: two items are similar exactly if no path through structs leads to a visible
  difference.
* `equals_verdict`: on every heap a positive answer of the bounded comparison means that the items are
  similar, a negative one that a path leads to a difference, and every refusal is one of a resource
  limit. -/

namespace BoundedVm

namespace Heap

/-! ## Similarity -/

/-- Whether two items agree at their tops: two structs in their elements as `R` has it, all else in what
it shows. -/
def Agree (h : Heap) (R : Item → Item → Prop) : Item → Item → Prop
  | .struct s, .struct t => List.Forall₂ R (h.items s).toList (h.items t).toList
  | a, b => a.Alike b

/-- A relation all of whose pairs agree. -/
def IsBisimulation (h : Heap) (R : Item → Item → Prop) : Prop :=
  ∀ a b, R a b → h.Agree R a b

/-- The largest relation all of whose pairs agree. -/
def Similar (h : Heap) (a b : Item) : Prop :=
  ∃ R, h.IsBisimulation R ∧ R a b

variable {h : Heap}

theorem Agree.mono {R S : Item → Item → Prop} (hRS : ∀ a b, R a b → S a b) {a b : Item}
    (hab : h.Agree R a b) : h.Agree S a b := by
  unfold Agree at hab ⊢
  split at hab
  · exact hab.imp hRS
  · exact hab

/-- Similarity is itself a relation all of whose pairs agree, so that it is the largest one. -/
theorem isBisimulation_similar : h.IsBisimulation h.Similar := by
  rintro a b ⟨R, hR, hab⟩
  exact (hR a b hab).mono fun x y hxy => ⟨R, hR, hxy⟩

/-- Items that agree up to similarity are similar. -/
theorem similar_of_agree {a b : Item} (hab : h.Agree h.Similar a b) : h.Similar a b :=
  ⟨h.Agree h.Similar, fun _ _ hxy => hxy.mono isBisimulation_similar, hab⟩

theorem similar_iff_agree {a b : Item} : h.Similar a b ↔ h.Agree h.Similar a b :=
  ⟨isBisimulation_similar a b, similar_of_agree⟩

@[simp] theorem Similar.refl (a : Item) : h.Similar a a := by
  refine ⟨Eq, ?_, rfl⟩
  rintro x _ rfl
  cases x with
  | struct s => exact List.forall₂_refl _
  | _ => simp [Agree, Item.Alike]

/-! ## Paths that tell items apart -/

/-- Whether a path through structs leads from two items to a visible difference. -/
def Apart (h : Heap) (a b : Item) : Prop :=
  ∃ path x y, h.itemAt? a path = some x ∧ h.itemAt? b path = some y ∧ h.Differ x y

theorem Differ.apart {a b : Item} (hab : h.Differ a b) : h.Apart a b :=
  ⟨[], a, b, rfl, rfl, hab⟩

theorem Apart.of_children {a b x y : Item} {i : Nat} (hx : (h.children a)[i]? = some x)
    (hy : (h.children b)[i]? = some y) (hxy : h.Apart x y) : h.Apart a b := by
  obtain ⟨path, u, v, hu, hv, huv⟩ := hxy
  exact ⟨i :: path, u, v, itemAt?_cons_eq_some_iff.2 ⟨x, hx, hu⟩,
    itemAt?_cons_eq_some_iff.2 ⟨y, hy, hv⟩, huv⟩

theorem forall₂_iff_getElem? {α β : Type} {R : α → β → Prop} {xs : List α} {ys : List β} :
    List.Forall₂ R xs ys
      ↔ xs.length = ys.length ∧ ∀ (i : Nat) x y, xs[i]? = some x → ys[i]? = some y → R x y := by
  rw [List.forall₂_iff_get]
  refine and_congr_right fun hlen => ⟨fun hget i x y hx hy => ?_, fun hget i hi hj => ?_⟩
  · obtain ⟨hi, rfl⟩ := List.getElem?_eq_some_iff.mp hx
    obtain ⟨hj, rfl⟩ := List.getElem?_eq_some_iff.mp hy
    exact hget i hi hj
  · exact hget i _ _ (List.getElem?_eq_getElem hi) (List.getElem?_eq_getElem hj)

/-- Two items agree if they do not differ visibly and their elements are related. -/
theorem agree_iff {R : Item → Item → Prop} {a b : Item} :
    h.Agree R a b ↔ ¬ h.Differ a b ∧
      ∀ (i : Nat) x y, (h.children a)[i]? = some x → (h.children b)[i]? = some y → R x y := by
  cases a with
  | struct s =>
    cases b with
    | struct t => simp [Agree, Differ, forall₂_iff_getElem?]
    | _ => simp [Agree, Differ, children]
  | _ => simp [Agree, Differ, children]

/-- Items are similar exactly if no path through structs tells them apart. -/
theorem similar_iff_not_apart {a b : Item} : h.Similar a b ↔ ¬ h.Apart a b := by
  constructor
  · -- similarity is kept along the path, and at its end it excludes a difference
    rintro hab ⟨path, x, y, hx, hy, hxy⟩
    induction path generalizing a b with
    | nil =>
      cases hx
      cases hy
      exact (agree_iff.1 (isBisimulation_similar _ _ hab)).1 hxy
    | cons i path ih =>
      obtain ⟨u, hu, hux⟩ := itemAt?_cons_eq_some_iff.1 hx
      obtain ⟨v, hv, hvy⟩ := itemAt?_cons_eq_some_iff.1 hy
      exact ih ((agree_iff.1 (isBisimulation_similar a b hab)).2 i u v hu hv) hux hvy
  · -- not to be apart is itself a relation all of whose pairs agree
    intro hab
    refine ⟨fun x y => ¬ h.Apart x y, fun x y hxy => ?_, hab⟩
    exact agree_iff.2 ⟨fun hd => hxy hd.apart, fun i u v hu hv huv => hxy (huv.of_children hu hv)⟩

/-! ## The verdict of the comparison -/

/-- A leaf is similar to what shows the same content. -/
theorem similar_iff_alike {a b : Item} (ha : a.isStruct = false) : h.Similar a b ↔ a.Alike b := by
  rw [similar_iff_agree]
  cases a with
  | struct s => simp [Item.isStruct] at ha
  | _ => rfl

theorem Differ.not_similar {a b : Item} (hab : h.Differ a b) : ¬ h.Similar a b :=
  fun hs => similar_iff_not_apart.1 hs hab.apart

/-- Two structs of equal length are similar exactly if the pairs of their elements are. -/
theorem similar_struct_iff {s t : ContainerId} (hst : (h.items s).size = (h.items t).size) :
    h.Similar (.struct s) (.struct t) ↔ ∀ p ∈ h.elementPairs s t, h.Similar p.1 p.2 := by
  rw [similar_iff_agree, Agree, ← List.forall₂_reverse_iff, List.forall₂_iff_zip]
  simp [hst, elementPairs]

/-- The walk over pairs settles whether all pending pairs are similar. The induction is on the budget;
no set of visited pairs is needed, since similarity is a fixed point. -/
theorem settles_comparePairs (limits : Limits) (budget : Nat) (pending : List (Item × Item)) :
    Settles (∀ p ∈ pending, h.Similar p.1 p.2) (h.comparePairs limits budget pending) := by
  induction budget generalizing pending with
  | zero =>
    cases pending with
    | nil => simp
    | cons p pending => rfl
  | succ budget ih =>
    cases pending with
    | nil => simp
    | cons p pending =>
      obtain ⟨a, b⟩ := p
      have hspec := h.pairStep_spec limits a b
      rw [comparePairs, List.forall_mem_cons]
      -- each answer of one step settles the pair or replaces it by pairs that settle it
      cases hab : h.pairStep limits a b with
      | equal =>
        rw [hab] at hspec
        have hsim : h.Similar a b :=
          hspec.elim (fun e => e ▸ .refl a) fun hl => (similar_iff_alike hl.isStruct_eq_false).mpr hl
        simpa [hsim] using ih pending
      | descend s t =>
        rw [hab] at hspec
        obtain ⟨rfl, rfl, -, hst⟩ := hspec
        rw [similar_struct_iff hst, ← List.forall_mem_append]
        exact ih _
      | differ =>
        rw [hab] at hspec
        simp [hspec.not_similar]
      | refuse e =>
        rw [hab] at hspec
        exact hspec

/-- The comparison under limits settles whether two items are similar. -/
theorem settles_equals (limits : Limits) (a b : Item) :
    Settles (h.Similar a b) (h.equals limits a b) := by
  by_cases hkind : a.isStruct = b.isStruct
  · cases ha : a.isStruct with
    | false =>
      have hb : b.isStruct = false := hkind.symm.trans ha
      rw [equals_of_isStruct_eq_false h limits ha, similar_iff_alike ha]
      simpa [hb] using Item.settles_leafEquals limits ha hb
    | true =>
      obtain ⟨s, rfl⟩ := Item.isStruct_iff.1 ha
      obtain ⟨t, rfl⟩ := Item.isStruct_iff.1 (hkind.symm.trans ha)
      -- the walk begins with the two structs as its only pair
      rw [equals_struct, compareStruct_struct]
      simpa using settles_comparePairs limits limits.maxStackSize.toNat [(.struct s, .struct t)]
  · -- a struct is told apart from all else without a look inside
    have hfalse : h.equals limits a b = .ok false := by
      cases ha : a.isStruct with
      | false =>
        have hb : b.isStruct = true := by simpa [ha] using hkind
        rw [equals_of_isStruct_eq_false h limits ha, if_pos hb]
      | true =>
        obtain ⟨s, rfl⟩ := Item.isStruct_iff.1 ha
        exact compareStruct_of_isStruct_eq_false h limits s (by simpa [ha] using hkind)
    simpa [hfalse] using (h.differ_of_isStruct_ne hkind).not_similar

/-- **The verdict of the comparison.** On every heap, cyclic or shared, a positive answer means that the
items are similar and a negative one that they are not and that a path through structs leads to a visible
difference; every refusal is one of a resource limit. -/
theorem equals_verdict (h : Heap) (limits : Limits) (a b : Item) :
    match h.equals limits a b with
    | .ok true => h.Similar a b
    | .ok false =>
      ¬ h.Similar a b ∧
        ∃ path x y, h.itemAt? a path = some x ∧ h.itemAt? b path = some y ∧ h.Differ x y
    | .error e => e.isResourceLimit = true := by
  have hsettles := h.settles_equals limits a b
  cases hr : h.equals limits a b with
  | error e => simpa [hr] using hsettles
  | ok equal =>
    rw [hr, settles_ok_iff] at hsettles
    cases equal with
    | true => exact hsettles.mp rfl
    | false =>
      have hnot : ¬ h.Similar a b := fun hs => by simpa using hsettles.mpr hs
      exact ⟨hnot, not_not.mp fun hp => hnot (similar_iff_not_apart.2 hp)⟩

end Heap

end BoundedVm
