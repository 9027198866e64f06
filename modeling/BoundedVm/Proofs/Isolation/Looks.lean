import BoundedVm.Proofs.Comparison.Pruning
import BoundedVm.Proofs.Isolation.Operations

/-! # What a host shows

Views, texts, outlines and comparisons tell nothing of numbers except whether two are equal, and a
naming gives no number twice. What is looked at in a host is therefore exactly what is seen in the
hosted heap. -/

namespace BoundedVm

namespace Naming

variable {w : Naming} {x y x' y' : Item}

/-! ## Leaves -/

theorem Renames.number?_eq (h : w.Renames x y) : x.number? = y.number? := by
  cases h <;> rfl

theorem Renames.toBool_eq (h : w.Renames x y) : x.toBool = y.toBool := by
  cases h <;> rfl

theorem Renames.leafEquals_eq (h : w.Renames x y) (h' : w.Renames x' y') (limits : Limits) :
    x.leafEquals limits x' = y.leafEquals limits y' := by
  have heq := h.eq_iff h'
  cases h <;> cases h' <;> try rfl
  case bytes.bytes =>
    -- the same allocation is the same reference in both heaps
    simp only [Item.leafEquals, Item.bytesEqual, heq]
  case array.array hcd _ _ hcd' =>
    simp only [Item.leafEquals, hcd.eq_iff hcd']

theorem Renames.bytesEqual_eq {a b a' b' : Nat} (hab : w.allocations.Maps a b)
    (hab' : w.allocations.Maps a' b') (limits : Limits) (s t : List UInt8) :
    Item.bytesEqual limits a s a' t = Item.bytesEqual limits b s b' t :=
  Renames.leafEquals_eq (.bytes hab s) (.bytes hab' t) limits

theorem Renames.tryEquals_eq (h : w.Renames x y) (h' : w.Renames x' y') :
    x.tryEquals x' = y.tryEquals y' := by
  rw [Item.tryEquals, Item.tryEquals, h.isStruct_eq, h.leafEquals_eq h']

theorem Renames.sameContent_eq (h : w.Renames x y) (h' : w.Renames x' y') :
    Heap.sameContent x x' = Heap.sameContent y y' := by
  cases h <;> cases h' <;> rfl

end Naming

namespace Heap

/-- Whether the walk does the same with two pairs but for numbers. -/
inductive SameStep (w : Naming) : PairStep → PairStep → Prop
  | equal : SameStep w .equal .equal
  | descend {s t s' t' : ContainerId} (hs : w.containers.Maps s s') (ht : w.containers.Maps t t') :
    SameStep w (.descend s t) (.descend s' t')
  | differ : SameStep w .differ .differ
  | refuse (fault : ValueFault) : SameStep w (.refuse fault) (.refuse fault)

theorem forall₂_zip_zip {α : Type} {R : α → α → Prop} {xs xs' ys ys' : List α}
    (hx : List.Forall₂ R xs xs') (hy : List.Forall₂ R ys ys') :
    List.Forall₂ (fun p q => R p.1 q.1 ∧ R p.2 q.2) (xs.zip ys) (xs'.zip ys') := by
  induction hx generalizing ys ys' with
  | nil => exact .nil
  | cons hxx _ ih =>
    cases hy with
    | nil => exact .nil
    | cons hyy hy => exact .cons ⟨hxx, hyy⟩ (ih hy)

/-- What one item more adds to the outlines of the items before it and to what was met. -/
def outlineNext (h : Heap) (depth : Nat) (acc : List Outline × List ContainerId) (y : Item) :
    List Outline × List ContainerId :=
  ((h.outlineFrom depth y acc.2).1 :: acc.1, (h.outlineFrom depth y acc.2).2)

namespace Hosts

variable {base h k : Heap} {w : Naming} {x y x' y' : Item}

theorem view_eq (e : Hosts base w h k) (hxy : w.Renames x y) : h.view x = k.view y := by
  cases hxy with
  | array hcd => exact congrArg View.array (e.size_items hcd)
  | struct hcd => exact congrArg View.struct (e.size_items hcd)
  | _ => rfl

theorem describe_eq (e : Hosts base w h k) (hxy : w.Renames x y) : h.describe x = k.describe y := by
  unfold Heap.describe
  cases hxy with
  | array hcd => simp only [e.size_items hcd]
  | struct hcd => simp only [e.size_items hcd]
  | _ => rfl

/-! ## Comparisons -/

theorem pairStep (e : Hosts base w h k) (hxy : w.Renames x y) (hxy' : w.Renames x' y')
    (limits : Limits) : SameStep w (h.pairStep limits x x') (k.pairStep limits y y') := by
  by_cases hkinds : x.isStruct = x'.isStruct
  · cases hx : x.isStruct with
    | true =>
      obtain ⟨s, rfl⟩ := Item.isStruct_iff.1 hx
      obtain ⟨t, rfl⟩ := Item.isStruct_iff.1 (hkinds.symm.trans hx)
      cases hxy with
      | struct hs =>
        cases hxy' with
        | struct ht =>
          rw [pairStep_struct_struct, pairStep_struct_struct, ← e.size_items hs, ← e.size_items ht]
          by_cases hst : s = t
          · rw [if_pos hst, if_pos ((hs.eq_iff ht).mp hst)]
            exact .equal
          · rw [if_neg hst, if_neg (mt (hs.eq_iff ht).mpr hst)]
            split
            · exact .descend hs ht
            · exact .differ
    | false =>
      have hx' := hkinds.symm.trans hx
      rw [pairStep_of_isStruct_eq_false h limits hx hx',
        pairStep_of_isStruct_eq_false k limits (hxy.isStruct_eq.symm.trans hx)
          (hxy'.isStruct_eq.symm.trans hx'), ← hxy.leafEquals_eq hxy']
      by_cases heq : x = x'
      · rw [if_pos heq, if_pos ((hxy.eq_iff hxy').mp heq)]
        exact .equal
      · rw [if_neg heq, if_neg (mt (hxy.eq_iff hxy').mpr heq)]
        match x.leafEquals limits x' with
        | .ok true => exact .equal
        | .ok false => exact .differ
        | .error fault => exact .refuse fault
  · have hkinds' : y.isStruct ≠ y'.isStruct := by
      rw [← hxy.isStruct_eq, ← hxy'.isStruct_eq]
      exact hkinds
    rw [pairStep_of_isStruct_ne h limits hkinds, pairStep_of_isStruct_ne k limits hkinds']
    exact .differ

/-- The walk over pairs takes the same turns in both heaps. -/
theorem comparePairs_eq (e : Hosts base w h k) (limits : Limits) (budget : Nat)
    {pending pending' : List (Item × Item)}
    (hp : List.Forall₂ (fun p q => w.Renames p.1 q.1 ∧ w.Renames p.2 q.2) pending pending') :
    h.comparePairs limits budget pending = k.comparePairs limits budget pending' := by
  induction budget generalizing pending pending' with
  | zero =>
    cases hp with
    | nil => rfl
    | cons hpq hrest => rfl
  | succ budget ih =>
    cases hp with
    | nil => rfl
    | @cons p q pending pending' hpq hrest =>
      obtain ⟨x, x'⟩ := p
      obtain ⟨y, y'⟩ := q
      have hstep := e.pairStep hpq.1 hpq.2 limits
      unfold comparePairs
      dsimp only at hstep ⊢
      generalize h.pairStep limits x x' = left at hstep ⊢
      generalize k.pairStep limits y y' = right at hstep ⊢
      cases hstep with
      | equal => exact ih hrest
      | descend hs ht =>
        have hpairs := forall₂_zip_zip (List.rel_reverse (e.items hs)) (List.rel_reverse (e.items ht))
        exact ih (List.rel_append hpairs hrest)
      | differ => rfl
      | refuse fault => rfl

theorem compareStruct_eq {s t : ContainerId} (e : Hosts base w h k) (hst : w.containers.Maps s t)
    (hxy : w.Renames x y) (limits : Limits) :
    h.compareStruct limits s x = k.compareStruct limits t y := by
  cases hx : x.isStruct with
  | true =>
    obtain ⟨s', rfl⟩ := Item.isStruct_iff.1 hx
    cases hxy with
    | struct hst' =>
      rw [compareStruct_struct, compareStruct_struct]
      exact e.comparePairs_eq limits _ (.cons ⟨.struct hst, .struct hst'⟩ .nil)
  | false =>
    rw [compareStruct_of_isStruct_eq_false h limits s hx,
      compareStruct_of_isStruct_eq_false k limits t (hxy.isStruct_eq.symm.trans hx)]

theorem equals_eq (e : Hosts base w h k) (hxy : w.Renames x y) (hxy' : w.Renames x' y')
    (limits : Limits) : h.equals limits x x' = k.equals limits y y' := by
  cases hx : x.isStruct with
  | true =>
    obtain ⟨s, rfl⟩ := Item.isStruct_iff.1 hx
    cases hxy with
    | struct hst => exact e.compareStruct_eq hst hxy' limits
  | false =>
    rw [equals_of_isStruct_eq_false h limits hx,
      equals_of_isStruct_eq_false k limits (hxy.isStruct_eq.symm.trans hx), hxy'.isStruct_eq,
      hxy.leafEquals_eq hxy']

/-- **Comparing.** Every way to compare two values has the same outcome in both heaps. -/
theorem compareBy_eq (e : Hosts base w h k) (hxy : w.Renames x y) (hxy' : w.Renames x' y')
    (limits : Limits) (test : Comparison) :
    h.compareBy limits test x x' = k.compareBy limits test y y' := by
  cases test with
  | reference =>
    show Except.ok (decide (x = x')) = .ok (decide (y = y'))
    rw [decide_eq_decide.mpr (hxy.eq_iff hxy')]
  | content => exact congrArg Except.ok (hxy.sameContent_eq hxy')
  | tryEquals => exact hxy.tryEquals_eq hxy'
  | equals => exact e.equals_eq hxy hxy' limits
  | byteStrings =>
    cases hxy with
    | bytes hab s =>
      cases hxy' with
      | bytes hab' t => exact Naming.Renames.bytesEqual_eq hab hab' limits s t
      | _ => rfl
    | _ => rfl
  | structs =>
    cases hxy with
    | struct hst => exact e.compareStruct_eq hst hxy' limits
    | _ => rfl

/-! ## Outlines -/

/-- What was met under one name was met under the other at the same place. -/
theorem idxOf?_eq {met met' : List ContainerId} {c d : ContainerId}
    (hmet : List.Forall₂ w.containers.Maps met met') (hcd : w.containers.Maps c d) :
    met.idxOf? c = met'.idxOf? d := by
  induction hmet with
  | nil => rfl
  | @cons a b _ _ hab _ ih =>
    have hbeq : (a == c) = (b == d) := by
      rw [Bool.eq_iff_iff, beq_iff_eq, beq_iff_eq]
      exact hab.eq_iff hcd
    rw [List.idxOf?_cons, List.idxOf?_cons, hbeq, ih]

theorem outlineFrom_eq (e : Hosts base w h k) (depth : Nat) (hxy : w.Renames x y)
    {met met' : List ContainerId} (hmet : List.Forall₂ w.containers.Maps met met') :
    (h.outlineFrom depth x met).1 = (k.outlineFrom depth y met').1
      ∧ List.Forall₂ w.containers.Maps (h.outlineFrom depth x met).2
        (k.outlineFrom depth y met').2 := by
  induction depth generalizing x y met met' with
  | zero =>
    unfold Heap.outlineFrom
    obtain ⟨hx, hy⟩ | ⟨c, d, hx, hy, hcd⟩ := option_rel_cases hxy.container?
    · rw [hx, hy, e.view_eq hxy]
      exact ⟨rfl, hmet⟩
    · simp only [hx, hy, idxOf?_eq hmet hcd, e.view_eq hxy, hmet.length_eq]
      split
      · exact ⟨rfl, hmet⟩
      · exact ⟨rfl, List.rel_append hmet (.cons hcd .nil)⟩
  | succ depth ih =>
    unfold Heap.outlineFrom
    obtain ⟨hx, hy⟩ | ⟨c, d, hx, hy, hcd⟩ := option_rel_cases hxy.container?
    · rw [hx, hy, e.view_eq hxy]
      exact ⟨rfl, hmet⟩
    · simp only [hx, hy, idxOf?_eq hmet hcd, e.view_eq hxy, hmet.length_eq]
      split
      · exact ⟨rfl, hmet⟩
      · -- below each item the same is met, and then below the items after it
        let Same (acc acc' : List Outline × List ContainerId) : Prop :=
          acc.1 = acc'.1 ∧ List.Forall₂ w.containers.Maps acc.2 acc'.2
        have hnext : ∀ acc acc', Same acc acc' → ∀ a b, w.Renames a b →
            Same (h.outlineNext depth acc a) (k.outlineNext depth acc' b) :=
          fun acc acc' hacc a b hab => ⟨congrArg₂ List.cons (ih hab hacc.2).1 hacc.1,
            (ih hab hacc.2).2⟩
        have hstart : Same ([], met ++ [c]) ([], met' ++ [d]) :=
          ⟨rfl, List.rel_append hmet (.cons hcd .nil)⟩
        have hbelow : Same ((h.items c).toList.foldl (h.outlineNext depth) ([], met ++ [c]))
            ((k.items d).toList.foldl (k.outlineNext depth) ([], met' ++ [d])) :=
          List.rel_foldl hnext hstart (e.items hcd)
        exact ⟨congrArg (fun below => Outline.node _ _ (some below.reverse)) hbelow.1, hbelow.2⟩

/-- **Outlines.** The graph below a value is the same in both heaps, containers being numbered as they
are met. -/
theorem outline_eq (e : Hosts base w h k) (depth : Nat) (hxy : w.Renames x y) :
    h.outline depth x = k.outline depth y :=
  (e.outlineFrom_eq depth hxy .nil).1

end Hosts

end Heap

end BoundedVm
