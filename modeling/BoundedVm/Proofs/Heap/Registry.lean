import BoundedVm.Proofs.Heap.Discard

/-! # Registrations

A container is registered when it is made, with a number that no container has had before, and the
registry only loses entries after that. So no registry lists a container twice, and the number of
containers that a discard finds is the number of its entries that still exist.

* `Heap.Registration`: what a step can do to a registry.
* `Heap.RegistersOnce`: the registry lists what has been created, and nothing twice.
* `Steps.registersOnce`: every row of steps keeps this.
* `RegistersOnce.discard_fst`: what a discard counts. -/

namespace BoundedVm

namespace Heap

variable {h h' : Heap} {t : TrackerId}

/-! ## What a step registers -/

/-- What a step can do to the registry of a tracker. -/
inductive Registration (h h' : Heap) (t : TrackerId) : Prop
  | unchanged (heq : h'.entries t = h.entries t)
  | emptied (hnone : h'.entries t = [])
  | enrolled {account : Tracker} (ht : h.tracker? t = some account) (xs : Array Item)
    (heq : h' = h.enroll t xs)

/-- **What a step registers.** A step registers the container that it makes, after compaction, or else
leaves the registry as it is or empties it. -/
theorem Step.registration {may : Effect → Prop} {a b : Moment} (hs : Step may a b) (t : TrackerId) :
    Registration a.heap b.heap t := by
  cases hs with
  | perm | leaf | allocate | exchange => exact .unchanged rfl
  | @openTracker h held limit =>
    by_cases ht : t = h.trackers.size
    · exact .emptied ((entries_openTracker limit).trans (if_pos ht))
    · exact .unchanged ((entries_openTracker limit).trans (if_neg ht))
  | share => exact .unchanged (entries_congr (congrArg _ (tracker?_share _ _ t)))
  | drop => exact .unchanged (entries_dropItem _ t)
  | @enroll h held xs u account hmay ht =>
    by_cases hu : u = t
    · subst hu
      exact .enrolled ht xs rfl
    · exact .unchanged (entries_enroll_of_ne hu xs)
  | @forget h held u =>
    by_cases hu : u = t
    · exact .emptied ((entries_forget u).trans (if_pos hu))
    · exact .unchanged ((entries_forget u).trans (if_neg hu))

/-! ## Single registrations -/

/-- The registry of a tracker lists what has been created, and nothing twice. -/
structure RegistersOnce (h : Heap) (t : TrackerId) : Prop where
  nodup : (h.entries t).Nodup
  lt_created : ∀ c ∈ h.entries t, c < h.created

namespace RegistersOnce

theorem of_entries_eq_nil (hnone : h.entries t = []) : h.RegistersOnce t where
  nodup := by
    rw [hnone]
    exact List.nodup_nil
  lt_created c hc := by
    rw [hnone] at hc
    cases hc

/-- What registers nothing and takes no container back keeps the registry. -/
theorem of_entries_eq (hr : h.RegistersOnce t) (hcreated : h.created ≤ h'.created)
    (heq : h'.entries t = h.entries t) : h'.RegistersOnce t where
  nodup := by
    rw [heq]
    exact hr.nodup
  lt_created c hc := (hr.lt_created c (heq ▸ hc)).trans_le hcreated

theorem compact_nodup (hr : h.RegistersOnce t) : ((h.compact t).entries t).Nodup :=
  hr.nodup.sublist (entries_compact_sublist h t)

/-- The new container has a number that the registry does not list yet. -/
theorem enroll (hr : h.RegistersOnce t) {account : Tracker} (ht : h.tracker? t = some account)
    (xs : Array Item) : (h.enroll t xs).RegistersOnce t := by
  have hlt : ∀ c ∈ (h.compact t).entries t, c < h.created :=
    fun c hc => hr.lt_created c ((entries_compact_sublist h t).subset hc)
  constructor
  · rw [entries_enroll ht, List.nodup_append]
    refine ⟨hr.compact_nodup, List.nodup_singleton _, fun c hc d hd => ?_⟩
    rw [List.mem_singleton.mp hd]
    exact Nat.ne_of_lt (hlt c hc)
  · intro c hc
    rw [entries_enroll ht, List.mem_append, List.mem_singleton] at hc
    rw [created_enroll]
    rcases hc with hc | rfl
    · exact (hlt c hc).trans (Nat.lt_succ_self _)
    · exact Nat.lt_succ_self _

end RegistersOnce

theorem Step.registersOnce {may : Effect → Prop} {a b : Moment} (hs : Step may a b)
    (hr : a.heap.RegistersOnce t) : b.heap.RegistersOnce t := by
  cases hs.registration t with
  | unchanged heq => exact hr.of_entries_eq hs.created_le heq
  | emptied hnone => exact .of_entries_eq_nil hnone
  | enrolled ht xs heq =>
    rw [heq]
    exact hr.enroll ht xs

/-- **No registration is made twice.** At every moment to which steps lead from the empty heap a registry
lists what has been created, and nothing twice. -/
theorem Steps.registersOnce {may : Effect → Prop} {b : Moment} {past : List Moment}
    (hr : Steps may .empty past b) (t : TrackerId) : b.heap.RegistersOnce t := by
  induction hr with
  | refl => exact .of_entries_eq_nil rfl
  | next _ hs ih => exact hs.registersOnce ih

/-- A discard counts the containers that it finds. -/
theorem RegistersOnce.discard_fst (hr : h.RegistersOnce t) :
    ((h.discard t).1 : ℕ∞) = {c | c ∈ h.registered t}.encard := by
  have hnodup : (h.registered t).Nodup := by
    rw [registered_eq]
    exact hr.nodup.filter _
  rw [← List.coe_toFinset, Set.encard_coe_eq_coe_finsetCard, List.toFinset_card_of_nodup hnodup]
  rfl

end Heap

end BoundedVm
