import BoundedVm.Proofs.Heap.Freed
import BoundedVm.Proofs.Heap.Registry

/-! # Compact registries

The entries of containers that have ended stay in a registry until a creation finds too many entries for
the live containers. The live count goes up and down, but the peak only goes up and bounds the length:
when a container is registered, either the registry was short for the live count or nothing but entries
of live containers is left in it.

* `Heap.length_entries_compact_le`: the length of a registry before a container is registered.
* `Heap.Belonged`: a container of a history, with one tracker in all of it.
* `Moment.Registers`: what the registries list at one moment, given those before.
* `Steps.registers`: they list it at every moment of a history. -/

namespace BoundedVm

namespace Heap

variable {h h' : Heap} {t : TrackerId}

/-! ## The length -/

/-- Different containers of a tracker are no more than the tracker owns. -/
theorem length_le_population {cs : List ContainerId} (hnodup : cs.Nodup)
    (hown : ∀ c ∈ cs, h.alive c = true ∧ h.owner c = t) : cs.length ≤ h.population t := by
  have hsub : {c | c ∈ cs} ⊆ {c | h.alive c = true ∧ h.owner c = t} := hown
  have hle := Set.encard_le_encard hsub
  rw [← population_eq_encard, ← List.coe_toFinset, Set.encard_coe_eq_coe_finsetCard,
    List.toFinset_card_of_nodup hnodup] at hle
  exact_mod_cast hle

/-- After compaction the live count bounds the length of the registry. -/
theorem length_entries_compact_le {account : Tracker} (ht : h.tracker? t = some account)
    (hr : h.RegistersOnce t) (hown : ∀ c ∈ h.entries t, h.alive c = true → h.owner c = t)
    (hb : h.Balanced t) : ((h.compact t).entries t).length ≤ 2 * account.live + 65 := by
  rw [entries_compact ht]
  by_cases hfull : account.compactionBound ≤ (h.entries t).length
  · -- every entry that is left counts
    have hlive : ((h.entries t).filter h.alive).length ≤ h.population t := by
      refine length_le_population (hr.nodup.filter _) fun c hc => ?_
      obtain ⟨hmem, halive⟩ := List.mem_filter.mp hc
      exact ⟨halive, hown c hmem halive⟩
    rw [← (hb account ht).1] at hlive
    rw [if_pos hfull]
    omega
  · rw [if_neg hfull]
    unfold Tracker.compactionBound at hfull
    omega

/-- The registry of a tracker is at most as long as the peak allows. -/
def Compact (h : Heap) (t : TrackerId) : Prop :=
  ∀ account, h.tracker? t = some account → (h.entries t).length ≤ 2 * account.peak + 64

theorem Compact.enroll {account : Tracker} (ht : h.tracker? t = some account)
    (hr : h.RegistersOnce t) (hown : ∀ c ∈ h.entries t, h.alive c = true → h.owner c = t)
    (hb : h.Balanced t) (xs : Array Item) : (h.enroll t xs).Compact t := by
  intro after hafter
  obtain ⟨registry, hregistered⟩ := exists_tracker?_enroll ht xs
  obtain rfl := Option.some.inj (hregistered.symm.trans hafter)
  have hlength := length_entries_compact_le ht hr hown hb
  have hpeak : account.live + 1 ≤ max account.peak (account.live + 1) := Nat.le_max_right _ _
  rw [entries_enroll ht, List.length_append, List.length_singleton]
  show _ ≤ 2 * max account.peak (account.live + 1) + 64
  omega

/-- As long as nothing is registered the peak may only rise. -/
theorem Compact.of_entries_eq (hc : h.Compact t) (heq : h'.entries t = h.entries t)
    (hentry : Entry h h' t) : h'.Compact t := by
  intro after hafter
  rw [heq]
  cases ht : h.tracker? t with
  | none =>
    rw [entries, ht]
    exact Nat.zero_le _
  | some before =>
    have hlength := hc before ht
    have hpeak := hentry.peak_le ht hafter
    omega

theorem Compact.of_entries_eq_nil (hnone : h.entries t = []) : h.Compact t := by
  intro account _
  rw [hnone]
  exact Nat.zero_le _

/-! ## The containers of a history -/

/-- Whether a container has existed at some moments, and was the tracker's whenever it did. -/
def Belonged (t : TrackerId) (moments : List Moment) (c : ContainerId) : Prop :=
  (∃ a ∈ moments, a.heap.alive c = true) ∧
    ∀ a ∈ moments, a.heap.alive c = true → a.heap.owner c = t

section Belonged

variable {may : Effect → Prop} {a b : Moment} {past : List Moment} {c : ContainerId}

/-- No step gives a container that was created before it to another tracker. -/
theorem Belonged.step (hc : Belonged t (a :: past) c) (hlt : c < a.heap.created)
    (hs : Step may a b) : Belonged t (b :: a :: past) c := by
  obtain ⟨⟨d, hd, halive⟩, howner⟩ := hc
  refine ⟨⟨d, List.mem_cons_of_mem b hd, halive⟩, List.forall_mem_cons.mpr ⟨fun hafter => ?_, howner⟩⟩
  obtain ⟨hbefore, hsame⟩ := hs.lasting hlt hafter
  exact hsame.symm.trans (howner a List.mem_cons_self hbefore)

/-- A container that no moment before had is the tracker's that made it. -/
theorem belonged_of_created_le (hc : b.heap.alive c = true) (howner : b.heap.owner c = t)
    (hnew : ∀ d ∈ past, d.heap.created ≤ c) : Belonged t (b :: past) c := by
  refine ⟨⟨b, List.mem_cons_self, hc⟩, List.forall_mem_cons.mpr ⟨fun _ => howner, ?_⟩⟩
  intro d hd halive
  exact absurd (lt_created_of_alive halive) (Nat.not_lt.mpr (hnew d hd))

end Belonged

/-! ## Histories -/

/-- What the registries list at a moment, given the moments before it. -/
structure Moment.Registers (now : Moment) (past : List Moment) : Prop where
  nodup : ∀ t, (now.heap.entries t).Nodup
  /-- Nothing is listed but containers that have been made, and each by the tracker that owned it. -/
  belonged : ∀ t, ∀ c ∈ now.heap.entries t, Belonged t (now :: past) c
  length_le : ∀ t account, now.heap.tracker? t = some account →
    (now.heap.entries t).length ≤ 2 * account.peak + 64
  /-- Compaction removes entries of one registry, and none of a container that exists. -/
  compacted : ∀ t, ((now.heap.compact t).entries t).Sublist (now.heap.entries t) ∧
    (∀ c ∈ now.heap.entries t, now.heap.alive c = true → c ∈ (now.heap.compact t).entries t) ∧
    ∀ u, t ≠ u → (now.heap.compact t).entries u = now.heap.entries u
  /-- A creation that is accepted registers the container, after compaction. -/
  accepted : ∀ t xs c, (now.heap.create t xs).1 = .ok c → ∀ u,
    (now.heap.create t xs).2.entries u
      = if t = u then (now.heap.compact t).entries t ++ [c] else now.heap.entries u
  /-- A creation that is refused registers nothing. -/
  refused : ∀ t xs e, (now.heap.create t xs).1 = .error e → ∀ u,
    (now.heap.create t xs).2.entries u = now.heap.entries u
  /-- The end of handles, and of containers with them, leaves the entries. -/
  released : ∀ xs u, (now.heap.release xs).entries u = now.heap.entries u

theorem entries_create_of_ok {xs : Array Item} {c : ContainerId} (hc : (h.create t xs).1 = .ok c)
    (u : TrackerId) : (h.create t xs).2.entries u
      = if t = u then (h.compact t).entries t ++ [c] else h.entries u := by
  have hcreate : h.create t xs = (.ok c, (h.create t xs).2) := Prod.ext hc rfl
  obtain ⟨⟨account, ht, -⟩, rfl, hafter⟩ := create_eq_ok_iff.1 hcreate
  rw [hafter]
  by_cases hu : t = u
  · subst hu
    rw [if_pos rfl, entries_enroll ht]
  · rw [if_neg hu, entries_enroll_of_ne hu]

theorem entries_create_of_error {xs : Array Item} {e : ValueFault}
    (hc : (h.create t xs).1 = .error e) (u : TrackerId) :
    (h.create t xs).2.entries u = h.entries u := by
  have hcreate : h.create t xs = (.error e, (h.create t xs).2) := Prod.ext hc rfl
  rw [eq_of_create_eq_error hcreate]
  exact entries_release _ u

namespace Steps

variable {may : Effect → Prop} {start b : Moment} {past : List Moment}

/-- Nothing is listed but containers of the history. -/
theorem belonged (hr : Steps may .empty past b) (t : TrackerId) :
    ∀ c ∈ b.heap.entries t, Belonged t (b :: past) c := by
  induction hr with
  | refl =>
    intro c hc
    cases hc
  | @next past a b hr hs ih =>
    have hold : ∀ c ∈ a.heap.entries t, Belonged t (b :: a :: past) c :=
      fun c hc => (ih c hc).step ((hr.registersOnce t).lt_created c hc) hs
    cases hs.registration t with
    | unchanged heq =>
      rw [heq]
      exact hold
    | emptied hnone =>
      rw [hnone]
      exact fun c hc => absurd hc List.not_mem_nil
    | enrolled ht xs heq =>
      intro c hc
      rw [heq, entries_enroll ht, List.mem_append, List.mem_singleton] at hc
      rcases hc with hc | rfl
      · exact hold c ((entries_compact_sublist _ t).subset hc)
      · refine belonged_of_created_le ?_ ?_ (List.forall_mem_cons.mpr ⟨Nat.le_refl _, fun d hd => ?_⟩)
        · rw [heq, alive_enroll, decide_eq_true rfl, Bool.true_or]
        · rw [heq, owner_enroll, if_pos rfl]
        · obtain ⟨earlier, later, -, hfrom⟩ := hr.split hd
          exact hfrom.created_le

/-- **The length of a registry.** It is at most twice the peak and 64 more. -/
theorem compact (hr : Steps may .empty past b) (t : TrackerId) : b.heap.Compact t := by
  induction hr with
  | refl => exact .of_entries_eq_nil rfl
  | @next past a b hr hs ih =>
    cases hs.registration t with
    | unchanged heq => exact ih.of_entries_eq heq (hs.entry (hr.accounted accounted_empty) t)
    | emptied hnone => exact .of_entries_eq_nil hnone
    | enrolled ht xs heq =>
      have hown : ∀ c ∈ a.heap.entries t, a.heap.alive c = true → a.heap.owner c = t :=
        fun c hc halive => (hr.belonged t c hc).2 a List.mem_cons_self halive
      rw [heq]
      exact .enroll ht (hr.registersOnce t) hown (hr.balanced t) xs

/-- **Registries.** At every moment to which steps lead from the empty heap the registries list
containers that have been made, each once and with its own tracker, and not more than the peaks allow. -/
theorem registers (hr : Steps may .empty past b) : b.Registers past where
  nodup t := (hr.registersOnce t).nodup
  belonged := hr.belonged
  length_le := hr.compact
  compacted t := ⟨entries_compact_sublist _ t, fun _ => mem_entries_compact,
    fun _ => entries_compact_of_ne⟩
  accepted _ _ _ hc := entries_create_of_ok hc
  refused _ _ _ hc := entries_create_of_error hc
  released := entries_release

end Steps

end Heap

end BoundedVm
