import BoundedVm.Proofs.Comparison.Pruning
import BoundedVm.Proofs.Heap.Places

/-! # What it costs to find two structs equal

The pairs that a comparison goes through form a tree: below a pair of different structs of equal length
stand the pairs of their elements, and every other pair is a leaf. A pair that is met again has a place
of its own in the tree each time, so that two cycles have infinitely many. Where nothing in the tree
speaks against equality, the walk has to take off every pair, and it pays one unit for each.

* `Heap.pairAt?`, `Heap.pairCount`: the tree, given by its paths, and its size.
* `Heap.Undisputed`: no pair in the tree differs, and none is refused for its length.
* `comparePairs_of_undisputed`: what the walk needs is the size of the trees below all pending pairs.
* `compareStruct_of_undisputed`: the same for the comparison of two structs. -/

namespace BoundedVm

/-- Whether two items may be compared at all: different byte strings must not be longer than `max`. -/
def Item.Comparable (max : Nat) : Item → Item → Prop
  | bytes m x, bytes n y => m ≠ n → x.length ≤ max ∧ y.length ≤ max
  | _, _ => True

instance (max : Nat) : (a b : Item) → Decidable (a.Comparable max b)
  | .bytes m x, .bytes n y =>
    decidable_of_iff (m = n ∨ x.length ≤ max ∧ y.length ≤ max) Decidable.or_iff_not_imp_left
  | .null, _ | .boolean _, _ | .integer _ _, _ | .pointer _ _, _ | .array _, _ | .struct _, _ =>
    isTrue trivial
  | .bytes _ _, .null | .bytes _ _, .boolean _ | .bytes _ _, .integer _ _
  | .bytes _ _, .pointer _ _ | .bytes _ _, .array _ | .bytes _ _, .struct _ => isTrue trivial

namespace Heap

/-! ## The tree of pairs -/

/-- The pairs below a pair: those of the elements of two different structs of equal length, in order. -/
def pairsBelow (h : Heap) : Item × Item → List (Item × Item)
  | (.struct s, .struct t) =>
    if s ≠ t ∧ (h.items s).size = (h.items t).size then (h.items s).toList.zip (h.items t).toList
    else []
  | _ => []

/-- The pair that a path leads to. -/
def pairAt? (h : Heap) : Item × Item → List Nat → Option (Item × Item)
  | p, [] => some p
  | p, i :: path => (h.pairsBelow p)[i]?.bind fun q => pairAt? h q path

/-- The places of the tree below a pair. -/
def pairPlaces (h : Heap) (p : Item × Item) : Set (List Nat) :=
  {path | ∃ q, h.pairAt? p path = some q}

/-- The number of pairs in the tree below a pair, itself included. -/
noncomputable def pairCount (h : Heap) (p : Item × Item) : ℕ∞ :=
  (h.pairPlaces p).encard

/-- Nothing in the tree below a pair speaks against its equality: no pair is a difference, and no pair
of different byte strings is too long to be compared. -/
structure Undisputed (h : Heap) (max : Nat) (p : Item × Item) : Prop where
  same : ∀ path a b, h.pairAt? p path = some (a, b) → ¬ h.Differ a b
  comparable : ∀ path a b, h.pairAt? p path = some (a, b) → a.Comparable max b

variable {h : Heap} {limits : Limits} {max : Nat}

@[simp] theorem pairAt?_nil (p : Item × Item) : h.pairAt? p [] = some p := rfl

/-- A path that begins with an index leads on from the pair at the index. -/
theorem pairAt?_cons_eq_some_iff {p r : Item × Item} {i : Nat} {path : List Nat} :
    h.pairAt? p (i :: path) = some r
      ↔ ∃ q, (h.pairsBelow p)[i]? = some q ∧ h.pairAt? q path = some r :=
  Option.bind_eq_some_iff

/-- A path in two parts leads on from where its first part leads. -/
theorem pairAt?_append (p : Item × Item) (path rest : List Nat) :
    h.pairAt? p (path ++ rest) = (h.pairAt? p path).bind fun q => h.pairAt? q rest := by
  induction path generalizing p with
  | nil => rfl
  | cons i path ih =>
    rw [List.cons_append, pairAt?, pairAt?, Option.bind_assoc]
    congr 1
    funext q
    exact ih q

/-- Two structs have pairs below them if they are different and of equal length. -/
theorem pairsBelow_struct_struct {s t : ContainerId} (hne : s ≠ t)
    (hsize : (h.items s).size = (h.items t).size) :
    h.pairsBelow (.struct s, .struct t) = (h.items s).toList.zip (h.items t).toList :=
  if_pos ⟨hne, hsize⟩

/-- Nothing lies below a pair of the same reference twice. -/
theorem pairsBelow_self (a : Item) : h.pairsBelow (a, a) = [] := by
  cases a <;> simp [pairsBelow]

/-- Nothing lies below a pair of leaves. -/
theorem pairsBelow_of_isStruct_eq_false {a : Item} (ha : a.isStruct = false) (b : Item) :
    h.pairsBelow (a, b) = [] := by
  cases a with
  | struct s => simp [Item.isStruct] at ha
  | _ => rfl

/-- The places of a pair are the empty path and those through the pairs below it. -/
theorem pairPlaces_eq (p : Item × Item) :
    h.pairPlaces p = {[]} ∪ pathsThrough h.pairPlaces (h.pairsBelow p) := by
  ext path
  cases path with
  | nil => exact ⟨fun _ => .inl rfl, fun _ => ⟨p, rfl⟩⟩
  | cons i path =>
    constructor
    · rintro ⟨r, hr⟩
      obtain ⟨q, hq, hpath⟩ := pairAt?_cons_eq_some_iff.1 hr
      exact .inr ⟨i, path, rfl, q, hq, r, hpath⟩
    · rintro (hnil | ⟨_, _, heq, q, hq, r, hpath⟩)
      · exact absurd hnil (List.cons_ne_nil i path)
      · cases heq
        exact ⟨r, pairAt?_cons_eq_some_iff.2 ⟨q, hq, hpath⟩⟩

/-- A pair counts for itself and for what lies below it. -/
theorem pairCount_eq (p : Item × Item) :
    h.pairCount p = 1 + ((h.pairsBelow p).map h.pairCount).sum := by
  have hdisjoint : Disjoint {[]} (pathsThrough h.pairPlaces (h.pairsBelow p)) := by
    rw [Set.disjoint_singleton_left]
    rintro ⟨_, _, heq, -⟩
    exact absurd heq.symm (List.cons_ne_nil _ _)
  rw [pairCount, pairPlaces_eq, Set.encard_union_eq hdisjoint, Set.encard_singleton,
    encard_pathsThrough]
  rfl

/-- A pair that lies below itself has infinitely many pairs below it. -/
theorem pairCount_eq_top_of_cycle {p : Item × Item} {i : Nat} {path : List Nat}
    (hround : h.pairAt? p (i :: path) = some p) : h.pairCount p = ⊤ := by
  -- every place is found again, one round further down
  have hagain : {[]} ∪ (fun rest => i :: path ++ rest) '' h.pairPlaces p ⊆ h.pairPlaces p := by
    rintro _ (rfl | ⟨rest, ⟨r, hr⟩, rfl⟩)
    · exact ⟨p, rfl⟩
    · refine ⟨r, ?_⟩
      show h.pairAt? p (i :: path ++ rest) = some r
      rw [pairAt?_append, hround]
      exact hr
  have hdisjoint : Disjoint {[]} ((fun rest => i :: path ++ rest) '' h.pairPlaces p) := by
    rw [Set.disjoint_singleton_left]
    rintro ⟨rest, -, heq⟩
    exact absurd heq (List.cons_ne_nil _ _)
  have hle : 1 + h.pairCount p ≤ h.pairCount p := by
    have hcard := Set.encard_le_encard hagain
    rwa [Set.encard_union_eq hdisjoint, Set.encard_singleton,
      (List.append_right_injective (i :: path)).encard_image] at hcard
  by_contra hfinite
  rw [add_comm, ENat.add_one_le_iff hfinite] at hle
  exact lt_irrefl _ hle

/-! ## Trees without a difference -/

/-- Pairs that are neither different nor too long, and below which lie only such pairs, are
undisputed. -/
theorem undisputed_of_closed (pairs : List (Item × Item))
    (hpairs : ∀ p ∈ pairs, ¬ h.Differ p.1 p.2 ∧ p.1.Comparable max p.2 ∧
      ∀ q ∈ h.pairsBelow p, q ∈ pairs) {p : Item × Item} (hp : p ∈ pairs) :
    h.Undisputed max p := by
  have hall : ∀ path {p r}, p ∈ pairs → h.pairAt? p path = some r → r ∈ pairs := by
    intro path
    induction path with
    | nil =>
      intro p r hp hr
      cases hr
      exact hp
    | cons i path ih =>
      intro p r hp hr
      obtain ⟨q, hq, hpath⟩ := pairAt?_cons_eq_some_iff.1 hr
      exact ih ((hpairs p hp).2.2 q (List.mem_of_getElem? hq)) hpath
  exact ⟨fun path a b hab => (hpairs (a, b) (hall path hp hab)).1,
    fun path a b hab => (hpairs (a, b) (hall path hp hab)).2.1⟩

/-- What lies in an undisputed tree heads an undisputed tree. -/
theorem Undisputed.of_mem_pairsBelow {p q : Item × Item} (hp : h.Undisputed max p)
    (hq : q ∈ h.pairsBelow p) : h.Undisputed max q := by
  obtain ⟨i, hi⟩ := List.getElem?_of_mem hq
  exact ⟨fun path a b hab => hp.same (i :: path) a b (pairAt?_cons_eq_some_iff.2 ⟨q, hi, hab⟩),
    fun path a b hab =>
      hp.comparable (i :: path) a b (pairAt?_cons_eq_some_iff.2 ⟨q, hi, hab⟩)⟩

/-- Only different byte strings are refused in one turn, and only for their length. -/
theorem exists_bytes_of_pairStep_eq_refuse {a b : Item} {e : ValueFault}
    (hab : h.pairStep limits a b = .refuse e) :
    ∃ m n x y, a = .bytes m x ∧ b = .bytes n y ∧ a ≠ b ∧
      (limits.maxComparableSize.toNat < x.length ∨ limits.maxComparableSize.toNat < y.length) := by
  cases ha : a.isStruct with
  | true =>
    obtain ⟨s, rfl⟩ := Item.isStruct_iff.1 ha
    cases b <;> grind [pairStep]
  | false =>
    cases hb : b.isStruct with
    | true =>
      have hkind : a.isStruct ≠ b.isStruct := by simp [ha, hb]
      rw [pairStep_of_isStruct_ne h limits hkind] at hab
      cases hab
    | false =>
      rw [pairStep_of_isStruct_eq_false h limits ha hb] at hab
      cases a <;> cases b <;> grind [Item.leafEquals, Item.bytesEqual, Item.isStruct]

/-- **One turn on an undisputed pair.** It is equal and has nothing below it, or its structs are looked
into and the pairs of their elements are what lies below it. -/
theorem Undisputed.pairStep {a b : Item}
    (hab : h.Undisputed limits.maxComparableSize.toNat (a, b)) :
    h.pairStep limits a b = .equal ∧ h.pairsBelow (a, b) = [] ∨
      ∃ s t, h.pairStep limits a b = .descend s t ∧
        h.pairsBelow (a, b) = (h.items s).toList.zip (h.items t).toList := by
  have hspec := h.pairStep_spec limits a b
  cases hstep : h.pairStep limits a b with
  | equal =>
    rw [hstep] at hspec
    refine .inl ⟨rfl, ?_⟩
    rcases hspec with rfl | halike
    · exact pairsBelow_self a
    · exact pairsBelow_of_isStruct_eq_false halike.isStruct_eq_false b
  | descend s t =>
    rw [hstep] at hspec
    obtain ⟨rfl, rfl, hne, hsize⟩ := hspec
    exact .inr ⟨s, t, rfl, pairsBelow_struct_struct hne hsize⟩
  | differ =>
    rw [hstep] at hspec
    exact absurd hspec (hab.same [] a b rfl)
  | refuse e =>
    obtain ⟨m, n, x, y, rfl, rfl, hne, hlong⟩ := exists_bytes_of_pairStep_eq_refuse hstep
    -- the content is the same, so that it is the allocations that are different
    have hxy : x = y := not_not.mp (hab.same [] _ _ rfl)
    have hmn : m ≠ n := fun hmn => hne (by rw [hmn, hxy])
    obtain ⟨hx, hy⟩ := hab.comparable [] _ _ rfl hmn
    omega

/-! ## The cost of the walk -/

/-- The pairs of elements count the same in either order. -/
theorem sum_pairCount_elementPairs {s t : ContainerId}
    (hsize : (h.items s).size = (h.items t).size) :
    ((h.elementPairs s t).map h.pairCount).sum
      = (((h.items s).toList.zip (h.items t).toList).map h.pairCount).sum := by
  have hreverse : h.elementPairs s t = ((h.items s).toList.zip (h.items t).toList).reverse :=
    (List.reverse_zipWith (by simpa using hsize)).symm
  rw [hreverse, List.map_reverse, List.sum_reverse]

/-- **The cost of undisputed pairs.** A walk over undisputed pairs finds them equal if its budget is not
smaller than the number of pairs in their trees; otherwise it is refused for the lack of it. -/
theorem comparePairs_of_undisputed {budget : Nat} {pending : List (Item × Item)}
    (hpending : ∀ p ∈ pending, h.Undisputed limits.maxComparableSize.toNat p) :
    h.comparePairs limits budget pending
      = if (pending.map h.pairCount).sum ≤ budget then .ok true else .error .comparisonTooLarge := by
  induction budget generalizing pending with
  | zero =>
    cases pending with
    | nil => simp
    | cons p pending =>
      -- the pair itself has a place in its tree
      rw [List.map_cons, List.sum_cons, pairCount_eq, add_assoc, if_neg (by simp)]
      rfl
  | succ budget ih =>
    cases pending with
    | nil => simp
    | cons p pending =>
      obtain ⟨a, b⟩ := p
      obtain ⟨hab, hrest⟩ := List.forall_mem_cons.mp hpending
      have hpay : (((a, b) :: pending).map h.pairCount).sum ≤ ((budget + 1 : Nat) : ℕ∞)
          ↔ ((h.pairsBelow (a, b)).map h.pairCount).sum + (pending.map h.pairCount).sum
            ≤ budget := by
        rw [List.map_cons, List.sum_cons, pairCount_eq, add_assoc, one_add_le_succ_iff]
      rw [comparePairs, if_congr hpay rfl rfl]
      rcases hab.pairStep with ⟨hequal, hnone⟩ | ⟨s, t, hdescend, hbelow⟩
      · rw [hequal, hnone, List.map_nil, List.sum_nil, zero_add]
        exact ih hrest
      · -- the pairs of the elements come before the other ones, the last one first
        have hsize := size_eq_of_pairStep_eq_descend hdescend
        have helements : ∀ q ∈ h.elementPairs s t,
            h.Undisputed limits.maxComparableSize.toNat q := by
          intro q hq
          refine hab.of_mem_pairsBelow ?_
          rw [hbelow, ← List.mem_reverse, List.zip_eq_zipWith,
            List.reverse_zipWith (by simpa using hsize)]
          exact hq
        rw [hdescend, hbelow, ← sum_pairCount_elementPairs hsize, ← List.sum_append, ← List.map_append]
        exact ih (List.forall_mem_append.mpr ⟨helements, hrest⟩)

/-- **The exact cost of proving equality.** If nothing in the tree of pairs speaks against the equality
of two structs, their comparison finds them equal when the tree has no more pairs than the stack size,
and is refused for lack of budget when it has more or is infinite. -/
theorem compareStruct_of_undisputed {s t : ContainerId}
    (hst : h.Undisputed limits.maxComparableSize.toNat (.struct s, .struct t)) :
    h.compareStruct limits s (.struct t)
      = if h.pairCount (.struct s, .struct t) ≤ limits.maxStackSize.toNat then .ok true
        else .error .comparisonTooLarge := by
  rw [compareStruct_struct, comparePairs_of_undisputed (by simpa using hst), List.map_singleton,
    List.sum_singleton]

/-- Two structs with the same content on two levels, and two cycles of one and of two structs. -/
def sameTwice : Heap :=
  ⟨#[some ⟨#[.struct 2, .bytes 0 [1]], 0, 1⟩, some ⟨#[.struct 3, .bytes 1 [1]], 0, 1⟩,
      some ⟨#[.null], 0, 1⟩, some ⟨#[.null], 0, 1⟩,
      some ⟨#[.struct 4], 0, 2⟩, some ⟨#[.struct 6], 0, 2⟩, some ⟨#[.struct 5], 0, 1⟩],
    #[⟨7, 7, 7, #[0, 1, 2, 3, 4, 5, 6]⟩], 2⟩

/-- The two structs make four pairs, for which a stack size of four is enough; the two cycles make
infinitely many, for which no stack size is. -/
theorem compareStruct_sameTwice :
    sameTwice.compareStruct ⟨4, 1⟩ 0 (.struct 1) = .ok true ∧
      sameTwice.compareStruct ⟨3, 1⟩ 0 (.struct 1) = .error .comparisonTooLarge ∧
      ∀ stackSize, sameTwice.compareStruct ⟨stackSize, 1⟩ 4 (.struct 5)
        = .error .comparisonTooLarge := by
  have htrees : sameTwice.Undisputed 1 (.struct 0, .struct 1) :=
    undisputed_of_closed [(.struct 0, .struct 1), (.struct 2, .struct 3), (.null, .null),
      (.bytes 0 [1], .bytes 1 [1])] (by decide) (by decide)
  have hcycles : sameTwice.Undisputed 1 (.struct 4, .struct 5) :=
    undisputed_of_closed [(.struct 4, .struct 5), (.struct 4, .struct 6)] (by decide) (by decide)
  have houter : sameTwice.pairsBelow (.struct 0, .struct 1)
      = [(.struct 2, .struct 3), (.bytes 0 [1], .bytes 1 [1])] := by decide
  have hinner : sameTwice.pairsBelow (.struct 2, .struct 3) = [(.null, .null)] := by decide
  have hnull : sameTwice.pairsBelow (.null, .null) = [] := rfl
  have hbytes : sameTwice.pairsBelow (.bytes 0 [1], .bytes 1 [1]) = [] := rfl
  have hfour : sameTwice.pairCount (.struct 0, .struct 1) = (4 : Nat) := by
    simp only [pairCount_eq, houter, hinner, hnull, hbytes, List.map_cons, List.map_nil,
      List.sum_cons, List.sum_nil]
    rfl
  have hround : sameTwice.pairAt? (.struct 4, .struct 5) [0, 0] = some (.struct 4, .struct 5) := rfl
  rw [compareStruct_of_undisputed htrees, compareStruct_of_undisputed htrees, hfour]
  refine ⟨if_pos (by decide), if_neg (by decide), fun stackSize => ?_⟩
  rw [compareStruct_of_undisputed hcycles, pairCount_eq_top_of_cycle hround]
  exact if_neg (by simp)

end Heap

end BoundedVm
