/-
# What deleting leaves alone

Deleting a model fetches what its cascading relationships lead to, so it loads and unloads
relationships and wraps records anew. But records are only ever taken out of the store, each
under a note of the deletion, and the models that were there before keep their records. This
is so for every run, also for one that fails half way.
-/
import RecordGraph.Proofs.Deleting.Cascades
import RecordGraph.Proofs.Deleting.Fetches
import RecordGraph.Proofs.Saving.Records

namespace RecordGraph

variable {α β : Type}

namespace Graph

/-- Records were taken out of the store, each noted as deleted, and nothing else happened to
stored records or to the records of the models that were there. -/
structure OnlyDeletes (g g' : Graph MemoryStore) : Prop where
  models_size : g.models.size ≤ g'.models.size
  record : ∀ m, g.HasModel m → (g'.model m).record = (g.model m).record
  deleted : ∃ more, g'.store.deleted = g.store.deleted ++ more ∧ ∀ entityType id,
    g'.stored entityType id = g.stored entityType id ∨
      (g'.stored entityType id = none ∧ (entityType, id) ∈ more)

namespace OnlyDeletes

variable {g g' g'' : Graph MemoryStore}

theorem of_records (hsize : g.models.size ≤ g'.models.size)
    (hrecord : ∀ m, g.HasModel m → (g'.model m).record = (g.model m).record)
    (hrecords : g'.store.records = g.store.records)
    (hdeleted : g'.store.deleted = g.store.deleted) : g.OnlyDeletes g' := by
  refine ⟨hsize, hrecord, [], by simp [hdeleted], fun entityType id => .inl ?_⟩
  rw [stored, stored, MemoryStore.recordsOf, MemoryStore.recordsOf, hrecords]

theorem refl (g : Graph MemoryStore) : g.OnlyDeletes g :=
  of_records (Nat.le_refl _) (fun _ _ => rfl) rfl rfl

theorem hasModel (h : g.OnlyDeletes g') {m : Model} (hm : g.HasModel m) : g'.HasModel m :=
  Nat.lt_of_lt_of_le hm h.models_size

theorem trans (first : g.OnlyDeletes g') (second : g'.OnlyDeletes g'') : g.OnlyDeletes g'' := by
  obtain ⟨more, hmore, hstored⟩ := first.deleted
  obtain ⟨more', hmore', hstored'⟩ := second.deleted
  refine ⟨Nat.le_trans first.models_size second.models_size, fun m hm => ?_, more ++ more',
    by rw [hmore', hmore, List.append_assoc], fun entityType id => ?_⟩
  · rw [second.record m (first.hasModel hm), first.record m hm]
  · rcases hstored' entityType id with hsame' | ⟨hnone, hnoted⟩
    · rw [hsame']
      exact (hstored entityType id).imp_right fun ⟨hnone, hnoted⟩ =>
        ⟨hnone, List.mem_append_left _ hnoted⟩
    · exact .inr ⟨hnone, List.mem_append_right _ hnoted⟩

theorem isStoredAs (h : g.OnlyDeletes g') {m : Model} (hm : g.HasModel m)
    {entityType id : String} (hat : g.IsStoredAs m entityType id) :
    g'.IsStoredAs m entityType id := by
  rw [IsStoredAs, h.record m hm]
  exact hat

/-- What a run frames that only takes records out. -/
theorem of_frames {old : Graph MemoryStore}
    (h : old.Frames (fun s s' => ∃ log, s.Takes log s') g g') : g.OnlyDeletes g' := by
  obtain ⟨log, htakes⟩ := h.store
  refine ⟨h.models_size, h.record, log, htakes.deleted, fun entityType id => ?_⟩
  by_cases hnoted : (entityType, id) ∈ log
  · exact .inr ⟨by rw [stored, htakes.get?, if_pos hnoted], hnoted⟩
  · exact .inl (by rw [stored, stored, htakes.get?, if_neg hnoted])

end OnlyDeletes

end Graph

/-! ## Actions -/

/-- Every run of the action, whether it answers or fails, only deletes. -/
def Action.OnlyDeletes (x : Action MemoryStore α) : Prop :=
  ∀ g : Graph MemoryStore, g.OnlyDeletes (x g).2

namespace Action.OnlyDeletes

theorem of_returns {x : Action MemoryStore α} (h : OnlyDeletes x) {g g' : Graph MemoryStore}
    {a : α} (hrun : Returns x g a g') : g.OnlyDeletes g' := by
  have hequal : x g = (.ok a, g') := hrun
  have hdeletes := h g
  rwa [hequal] at hdeletes

protected theorem pure (a : α) : OnlyDeletes (pure a : Action MemoryStore α) :=
  fun g => .refl g

protected theorem bind {x : Action MemoryStore α} {f : α → Action MemoryStore β}
    (hx : OnlyDeletes x) (hf : ∀ a, OnlyDeletes (f a)) : OnlyDeletes (x >>= f) := by
  intro g
  rw [run_bind]
  have hfirst := hx g
  cases hrun : x g with
  | mk answer g' =>
      rw [hrun] at hfirst
      cases answer with
      | ok a => exact hfirst.trans (hf a g')
      | error e => exact hfirst

theorem forM {f : α → Action MemoryStore PUnit} (hf : ∀ a, OnlyDeletes (f a)) (l : List α) :
    OnlyDeletes (l.forM f) := by
  induction l with
  | nil => exact OnlyDeletes.pure _
  | cons a rest ih => exact (hf a).bind fun _ => ih

end Action.OnlyDeletes

/-- Deleting a model, whether it answers or fails, takes records out of the store, each under a
note of its deletion, and does nothing else to stored records and to the records of models. -/
theorem Model.onlyDeletes_delete (m : Model) :
    (m.delete : Action MemoryStore Unit).OnlyDeletes := fun g =>
  .of_frames (Model.framed_delete MemoryStore.covers_takes MemoryStore.Takes.exists_delete
    (Nat.le_refl g.collections.size) m).frames

end RecordGraph
