/-
# Storing models one after the other

Saving a model stores its record under one identifier. Of several models that are saved the
last one that has an identifier decides what is stored under it, so what a run of saves leaves
in the store is read off one save. What a save leaves alone is said by the caller, who may
unload relationships between the saves.
-/
import RecordGraph.Proofs.MemoryStores
import RecordGraph.Proofs.Saving.Syncing

namespace RecordGraph

/-! ## One record -/

/-- A stored record is the one that was given, under its own identifier or under a new one. -/
theorem MemoryStore.save_eq {s s' : MemoryStore} {r stored : Record}
    (h : MemoryStore.save r s = (.ok stored, s')) : ∃ id, stored = r.withId id ∧
      (∀ own, r.id = some own → own = id) ∧
      s'.records = s.records.insert r.entityType
        ((s.recordsOf r.entityType).insert id stored) ∧
      s'.deleted = s.deleted ∧ s'.calls.deletes = s.calls.deletes := by
  obtain ⟨id, hput, hrecords⟩ := s.put_eq r
  simp only [save, Prod.mk.injEq, Except.ok.injEq] at h
  obtain ⟨rfl, rfl⟩ := h
  refine ⟨id, hput, fun own hown => ?_, by rw [hput]; exact hrecords, rfl, rfl⟩
  have hown' : (s.put r).1.id = some own := by
    simp [put, hown, Record.withId]
  rw [hput] at hown'
  exact (Option.some.inj hown').symm

/-- Looking up a record after another one was filed. -/
theorem MemoryStore.get?_recordsOf_insert {s s' : MemoryStore} {kind id : String} {r : Record}
    (h : s'.records = s.records.insert kind ((s.recordsOf kind).insert id r))
    (entityType other : String) : (s'.recordsOf entityType).get? other =
      if kind = entityType ∧ id = other then some r
      else (s.recordsOf entityType).get? other := by
  rw [recordsOf, h, OrderedMap.get?_insert]
  by_cases hkind : kind = entityType
  · subst hkind
    simp
  · simp [hkind, recordsOf]

/-- A foreign key does not depend on the identifier of the record. -/
theorem Record.referenceIds_withId {k : ForeignKey} (h : k.Plain) (r : Record) (id : String) :
    (r.withId id).referenceIds k.field k.column = r.referenceIds k.field k.column := by
  rw [referenceIds_eq h, referenceIds_eq h]
  rfl

/-! ## Where a model is stored -/

namespace Graph

/-- The record that is stored under an identifier. -/
def stored (g : Graph MemoryStore) (entityType id : String) : Option Record :=
  (g.store.recordsOf entityType).get? id

/-- The record of the model has this entity type and this identifier. -/
def IsStoredAs {σ : Type} (g : Graph σ) (m : Model) (entityType id : String) : Prop :=
  (g.model m).record.entityType = entityType ∧ (g.model m).record.id = some id

instance {σ : Type} (g : Graph σ) (m : Model) (entityType id : String) :
    Decidable (g.IsStoredAs m entityType id) := inferInstanceAs (Decidable (_ ∧ _))

/-- Two models wrap the same stored record. -/
def SameRecord {σ : Type} (g : Graph σ) (m n : Model) : Prop :=
  (g.model m).record.id.isSome ∧ (g.model m).record.id = (g.model n).record.id ∧
    (g.model m).record.entityType = (g.model n).record.entityType

instance {σ : Type} (g : Graph σ) (m n : Model) : Decidable (g.SameRecord m n) :=
  inferInstanceAs (Decidable (_ ∧ _ ∧ _))

theorem sameRecord_of_isStoredAs {σ : Type} {g : Graph σ} {m n : Model} {entityType id : String}
    (hm : g.IsStoredAs m entityType id) (hn : g.IsStoredAs n entityType id) :
    g.SameRecord m n :=
  ⟨by rw [hm.2]; rfl, hm.2.trans hn.2.symm, hm.1.trans hn.1.symm⟩

/-- No model loses its identifier or gets another one, and none changes its entity type. -/
structure KeepsIds {σ : Type} (g g' : Graph σ) : Prop where
  id : ∀ m id, (g.model m).record.id = some id → (g'.model m).record.id = some id
  entityType : ∀ m, (g'.model m).record.entityType = (g.model m).record.entityType

namespace KeepsIds

variable {σ : Type} {g g' g'' : Graph σ}

theorem refl (g : Graph σ) : g.KeepsIds g := ⟨fun _ _ h => h, fun _ => rfl⟩

theorem trans (first : g.KeepsIds g') (second : g'.KeepsIds g'') : g.KeepsIds g'' :=
  ⟨fun m id h => second.id m id (first.id m id h),
    fun m => (second.entityType m).trans (first.entityType m)⟩

theorem isStoredAs (h : g.KeepsIds g') {m : Model} {entityType id : String}
    (hm : g.IsStoredAs m entityType id) : g'.IsStoredAs m entityType id :=
  ⟨(h.entityType m).trans hm.1, h.id m id hm.2⟩

/-- A model that is stored already is stored where it is later on. -/
theorem isStoredAs_of_later (h : g.KeepsIds g') {m : Model} {entityType id : String}
    (hm : (g.model m).record.id.isSome) (hlater : g'.IsStoredAs m entityType id) :
    g.IsStoredAs m entityType id := by
  obtain ⟨own, hown⟩ := Option.isSome_iff_exists.mp hm
  have hsame : own = id := Option.some.inj ((h.id m own hown).symm.trans hlater.2)
  exact ⟨(h.entityType m).symm.trans hlater.1, hsame ▸ hown⟩

theorem setRecord {m : Model} {r : Record}
    (hid : ∀ id, (g.model m).record.id = some id → r.id = some id)
    (hentity : r.entityType = (g.model m).record.entityType) : g.KeepsIds (g.setRecord m r) where
  id n id hn := by
    rw [model_setRecord]
    split
    · rename_i hsame
      subst hsame
      exact hid id hn
    · exact hn
  entityType n := by
    rw [model_setRecord]
    split
    · rename_i hsame
      subst hsame
      exact hentity
    · rfl

end KeepsIds

/-- Nothing happened except that models have other records and that records were stored. -/
structure OnlyStores (g g' : Graph MemoryStore) : Prop where
  keepsIds : g.KeepsIds g'
  registry : g'.registry = g.registry
  sessions : g'.sessions = g.sessions
  collections : g'.collections = g.collections
  models_size : g'.models.size = g.models.size
  model : ∀ m, g'.model m = { g.model m with record := (g'.model m).record }
  deleted : g'.store.deleted = g.store.deleted
  deletes : g'.store.calls.deletes = g.store.calls.deletes

namespace OnlyStores

variable {g g' g'' : Graph MemoryStore}

theorem refl (g : Graph MemoryStore) : g.OnlyStores g :=
  ⟨.refl g, rfl, rfl, rfl, rfl, fun _ => rfl, rfl, rfl⟩

theorem trans (first : g.OnlyStores g') (second : g'.OnlyStores g'') : g.OnlyStores g'' where
  keepsIds := first.keepsIds.trans second.keepsIds
  registry := second.registry.trans first.registry
  sessions := second.sessions.trans first.sessions
  collections := second.collections.trans first.collections
  models_size := second.models_size.trans first.models_size
  model m := by
    rw [second.model m, first.model m]
  deleted := second.deleted.trans first.deleted
  deletes := second.deletes.trans first.deletes

theorem modelType (h : g.OnlyStores g') (m : Model) :
    (g'.model m).modelType = (g.model m).modelType := by
  rw [h.model m]

theorem parents (h : g.OnlyStores g') (m : Model) :
    (g'.model m).parents = (g.model m).parents := by
  rw [h.model m]

theorem children (h : g.OnlyStores g') (m : Model) :
    (g'.model m).children = (g.model m).children := by
  rw [h.model m]

theorem collection (h : g.OnlyStores g') (c : Collection) : g'.collection c = g.collection c := by
  rw [Graph.collection, h.collections]
  rfl

theorem hasModel (h : g.OnlyStores g') (m : Model) : g'.HasModel m ↔ g.HasModel m := by
  rw [HasModel, h.models_size]
  rfl

theorem hasCollection (h : g.OnlyStores g') (c : Collection) :
    g'.HasCollection c ↔ g.HasCollection c := by
  rw [HasCollection, h.collections]
  rfl

theorem setRecord {m : Model} {r : Record} (hm : g.HasModel m)
    (hid : ∀ id, (g.model m).record.id = some id → r.id = some id)
    (hentity : r.entityType = (g.model m).record.entityType) :
    g.OnlyStores (g.setRecord m r) where
  keepsIds := .setRecord hid hentity
  registry := rfl
  sessions := rfl
  collections := rfl
  models_size := Cells.size_set_of_lt hm _
  model n := by
    rw [model_setRecord]
  deleted := rfl
  deletes := rfl

theorem withStore (store : MemoryStore) (hdeleted : store.deleted = g.store.deleted)
    (hdeletes : store.calls.deletes = g.store.calls.deletes) :
    g.OnlyStores { g with store := store } where
  keepsIds := ⟨fun _ _ h => h, fun _ => rfl⟩
  registry := rfl
  sessions := rfl
  collections := rfl
  models_size := rfl
  model _ := rfl
  deleted := hdeleted
  deletes := hdeletes

theorem grows (h : g.OnlyStores g') : g.Grows g' where
  registry := h.registry
  model m hm := (h.hasModel m).mpr hm
  collection c hc := (h.hasCollection c).mpr hc
  modelType m _ := h.modelType m
  key m _ := by
    rw [h.model m]
  stored m _ hnew := by
    rw [Record.isNew, Option.isNone_iff_eq_none] at hnew ⊢
    cases hid : (g.model m).record.id with
    | none => rfl
    | some id =>
        rw [h.keepsIds.id m id hid] at hnew
        cases hnew

/-- Storing keeps a graph well formed. -/
theorem wellFormed (h : g.OnlyStores g') (hg : g.WellFormed) : g'.WellFormed := by
  refine hg.of_grows h.grows (fun m hm => ?_) (fun c hc => ?_) fun s m hm => ?_
  · have hfits := (hg.models m ((h.hasModel m).mp hm)).later h.grows
    refine .inr ⟨?_, ?_, ?_⟩
    · rw [h.modelType m]
      exact hfits.typed
    · rw [h.parents m]
      exact hfits.parents
    · rw [h.children m]
      exact hfits.children
  · exact .inl ⟨(h.hasCollection c).mp hc, h.collection c⟩
  · rw [Graph.session, h.sessions] at hm
    exact (h.hasModel m).mpr (hg.forged s m hm)

end OnlyStores

/-- The model was stored: the record that it has in the end is stored under its identifier,
everything else is stored as before, and the other models have the records that they had. -/
structure Writes (g g' : Graph MemoryStore) (m : Model) : Prop where
  others : ∀ n, n ≠ m → (g'.model n).record = (g.model n).record
  id : (g'.model m).record.id.isSome
  stored : ∀ entityType id, g'.stored entityType id =
    if g'.IsStoredAs m entityType id then some (g'.model m).record else g.stored entityType id

/-- Every loaded relationship that is written to the field of the key leaves identifiers there
that have the property, given that those held before have it. -/
def SyncKeeps {σ : Type} (g : Graph σ) (m : Model) (k : ForeignKey) (P : List String → Prop) :
    Prop :=
  ∀ name r held ids, g.registry.resolve (g.model m).modelType.name name = .ok r →
    r.foreignKey.field = k.field → g.PointsAt m name r held ids → (r.foreignKey = k → P held) →
    P (if r.foreignKey.column = k.column then (r.cardinality.keeps ids).filter (· ≠ "") else [])

end Graph

/-! ## One model -/

namespace Model

variable {m : Model} {k : ForeignKey} {g g' : Graph MemoryStore}

/-- Saving a model stores its record and leaves the rest of the graph alone. What holds of the
record and is kept by every key that is written anew holds of what is stored, up to the
identifier. -/
theorem returns_saveRecord_of {u : Unit} (hg : g.WellFormed) (hm : g.HasModel m)
    (h : Returns m.saveRecord g u g') (Q : Record → Prop) (start : Q (g.model m).record)
    (turn : ∀ name r record ids, g.registry.resolve (g.model m).modelType.name name = .ok r →
      g.PointsAt m name r (record.referenceIds r.foreignKey.field r.foreignKey.column) ids →
      Q record → Q (r.writeKey ids record)) :
    g.OnlyStores g' ∧ g.Writes g' m ∧
      ∃ record id, Q record ∧ (g'.model m).record = record.withId id := by
  simp only [saveRecord, returns_bind, returns_record, returns_call, returns_updateRecord,
    and_assoc, exists_eq_left] at h
  obtain ⟨⟨⟩, synced, hsync, stored, _, ⟨store, hcall, rfl⟩, rfl⟩ := h
  obtain ⟨record, rfl, hid, hentity, hrecord⟩ :=
    returns_syncForeignKeys hg.registry (hg.typed m hm) hm hsync Q start turn
  have hown : ((g.setRecord m record).model m).record = record := by
    simp
  rw [hown] at hcall
  obtain ⟨id, rfl, hsame, hrecords, hdeleted, hdeletes⟩ := MemoryStore.save_eq hcall
  have hgraph : Graph.setRecord { g.setRecord m record with store := store } m
      (record.withId id) = Graph.setRecord { g with store := store } m (record.withId id) :=
    Graph.setRecord_setRecord { g with store := store } m record (record.withId id)
  rw [hgraph]
  have hstores := (Graph.OnlyStores.withStore (g := g) store hdeleted hdeletes).trans
    (.setRecord (m := m) (r := record.withId id) hm
      (fun own hown' => congrArg some (hsame own (hid.trans hown')).symm) hentity)
  refine ⟨hstores, ⟨fun n hn => ?_, by simp [Record.withId], fun entityType other => ?_⟩,
    record, id, hrecord, by simp⟩
  · rw [Graph.model_setRecord]
    simp [Ne.symm hn, Graph.model]
  · have hstored := MemoryStore.get?_recordsOf_insert hrecords entityType other
    simpa [Graph.stored, Graph.IsStoredAs, Record.withId] using hstored

/-- What the loaded relationships keep true of a foreign key is true of the stored record. -/
theorem returns_saveRecord {u : Unit} (hg : g.WellFormed) (hm : g.HasModel m)
    (h : Returns m.saveRecord g u g') : g.OnlyStores g' ∧ g.Writes g' m ∧
      ∀ k P, k.Plain → g.SyncKeeps m k P → P (g.keyIds k m) → P (g'.keyIds k m) := by
  obtain ⟨hstores, hwrites, record, id, hrecord, hsame⟩ := returns_saveRecord_of hg hm h
    (fun record => ∀ k P, k.Plain → g.SyncKeeps m k P → P (g.keyIds k m) →
      P (record.referenceIds k.field k.column)) (fun k P _ _ hstart => hstart) (by
    intro name r record ids hresolve hpoints hbefore k P hplain hkeeps hstart
    by_cases hfield : r.foreignKey.field = k.field
    · rw [Resolved.writeKey, hfield, Record.referenceIds_setReferenceIds hplain]
      refine hkeeps name r _ ids hresolve hfield hpoints fun hkey => ?_
      rw [hkey]
      exact hbefore k P hplain hkeeps hstart
    · rw [Resolved.writeKey, Record.referenceIds_setReferenceIds_of_ne hplain hfield]
      exact hbefore k P hplain hkeeps hstart)
  refine ⟨hstores, hwrites, fun k P hplain hkeeps hstart => ?_⟩
  rw [Graph.keyIds, hsame, Record.referenceIds_withId hplain]
  exact hrecord k P hplain hkeeps hstart

end Model

/-! ## Several models -/

/-- What a run of saves leaves under an identifier: a record of one of the models that have the
identifier in the end, of which `W` holds, or what was there before, if no model has it. -/
inductive Graph.LastWrites (g g' : Graph MemoryStore) (ms : List Model)
    (W : Model → Record → Prop) (entityType id : String) : Prop where
  | before (hsame : g'.stored entityType id = g.stored entityType id)
      (hnone : ∀ n ∈ ms, ¬ g'.IsStoredAs n entityType id)
  | written (n : Model) (hn : n ∈ ms) (hat : g'.IsStoredAs n entityType id) (record : Record)
      (hrecord : g'.stored entityType id = some record) (hW : W n record)

/-- A run of saves. `R` says what each of them leaves alone, and `W` what is true of the record
that it stores. -/
theorem Returns.saves {f : Model → Action MemoryStore Unit} {ms : List Model}
    {g g' : Graph MemoryStore} {u : PUnit} (h : Returns (ms.forM f) g u g')
    {R : Graph MemoryStore → Graph MemoryStore → Prop} {W : Model → Record → Prop}
    (refl : ∀ t, R t t) (trans : ∀ {t t' t''}, R t t' → R t' t'' → R t t'')
    (ids : ∀ {t t'}, R t t' → t.KeepsIds t')
    (turn : ∀ n ∈ ms, ∀ t t', R g t → Returns (f n) t () t' →
      R t t' ∧ t.Writes t' n ∧ W n (t'.model n).record) :
    R g g' ∧ (∀ n ∈ ms, (g'.model n).record.id.isSome) ∧
      ∀ entityType id, g.LastWrites g' ms W entityType id := by
  induction ms generalizing g with
  | nil =>
      obtain ⟨rfl, -⟩ := returns_pure.mp h
      exact ⟨refl g', by simp, fun _ _ => .before rfl (by simp)⟩
  | cons n rest ih =>
      obtain ⟨⟨⟩, between, hfirst, hrest⟩ := returns_bind.mp h
      obtain ⟨hR, hwrites, hW⟩ := turn n (by simp) g between (refl g) hfirst
      obtain ⟨hRrest, hstored, hrest⟩ := ih hrest fun x hx t t' ht hrun =>
        turn x (by simp [hx]) t t' (trans hR ht) hrun
      obtain ⟨own, hown⟩ := Option.isSome_iff_exists.mp hwrites.id
      refine ⟨trans hR hRrest, fun x hx => ?_, fun entityType id => ?_⟩
      · rcases List.mem_cons.mp hx with rfl | hx
        · rw [(ids hRrest).id x own hown]
          rfl
        · exact hstored x hx
      · cases hrest entityType id with
        | before hsame hnone =>
            by_cases hat : g'.IsStoredAs n entityType id
            · have hatBetween := (ids hRrest).isStoredAs_of_later hwrites.id hat
              refine .written n (by simp) hat _ ?_ hW
              rw [hsame, hwrites.stored, if_pos hatBetween]
            · refine .before ?_ (by simpa [hat] using hnone)
              rw [hsame, hwrites.stored,
                if_neg fun hbetween => hat ((ids hRrest).isStoredAs hbetween)]
        | written x hx hat record hrecord hlast =>
            exact .written x (by simp [hx]) hat record hrecord hlast

namespace Collection

variable {c : Collection} {k : ForeignKey} {g g' : Graph MemoryStore}

/-- Saving the members. For some models `S` the loaded relationships are known to keep a
property of the foreign key; what is stored of such a member has the property, if its key had
it before. -/
theorem returns_saveModels {u : Unit} (hg : g.WellFormed) (hc : g.HasCollection c)
    (hplain : k.Plain) {P : List String → Prop} {S : Model → Prop}
    (hkeeps : ∀ n, S n → ∀ t, g.OnlyStores t → t.SyncKeeps n k P)
    (h : Returns c.saveModels g u g') :
    g.OnlyStores g' ∧ (∀ n, S n → P (g.keyIds k n) → P (g'.keyIds k n)) ∧
      (∀ n ∈ (g.collection c).members.values, (g'.model n).record.id.isSome) ∧
      ∀ entityType id, g.LastWrites g' (g.collection c).members.values
        (fun n record => S n → P (g.keyIds k n) → P (record.referenceIds k.field k.column))
        entityType id := by
  simp only [saveModels, returns_bind, returns_models, and_assoc, exists_eq_left] at h
  have hturn : ∀ n ∈ (g.collection c).members.values, ∀ t t',
      (g.OnlyStores t ∧ ∀ n, S n → P (g.keyIds k n) → P (t.keyIds k n)) →
      Returns n.saveRecord t () t' →
      (t.OnlyStores t' ∧ ∀ n, S n → P (t.keyIds k n) → P (t'.keyIds k n)) ∧ t.Writes t' n ∧
        (S n → P (g.keyIds k n) → P (t'.keyIds k n)) := by
    rintro n hn t t' ⟨ht, hsofar⟩ hrun
    obtain ⟨key, hkey⟩ := OrderedMap.mem_values_iff.mp hn
    have hmade := (ht.hasModel n).mpr (hg.members c key n hc hkey)
    obtain ⟨hstores, hwrites, hown⟩ := Model.returns_saveRecord (ht.wellFormed hg) hmade hrun
    refine ⟨⟨hstores, fun x hx hstart => ?_⟩, hwrites, fun hS hstart =>
      hown k P hplain (hkeeps n hS t ht) (hsofar n hS hstart)⟩
    by_cases hsame : x = n
    · subst hsame
      exact hown k P hplain (hkeeps x hx t ht) hstart
    · rw [Graph.keyIds, hwrites.others x hsame]
      exact hstart
  obtain ⟨⟨hstores, hkept⟩, hids, hwritten⟩ := h.saves
    (R := fun t t' => t.OnlyStores t' ∧ ∀ n, S n → P (t.keyIds k n) → P (t'.keyIds k n))
    (W := fun n record => S n → P (g.keyIds k n) → P (record.referenceIds k.field k.column))
    (fun t => ⟨.refl t, fun _ _ h => h⟩)
    (fun first second => ⟨first.1.trans second.1,
      fun n hn hstart => second.2 n hn (first.2 n hn hstart)⟩)
    (fun hR => hR.1.keepsIds) hturn
  exact ⟨hstores, hkept, hids, hwritten⟩

end Collection

end RecordGraph
