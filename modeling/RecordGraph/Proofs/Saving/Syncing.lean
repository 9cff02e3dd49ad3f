/-
# Foreign keys in line with what is loaded

Before a record is stored, every foreign key of a loaded relationship is written anew. What is
written is read off the loaded models, and saving writes no identifier that was there before;
so the whole is described key by key, by what one loaded relationship points at.
-/
import RecordGraph.Graph.Saving
import RecordGraph.Proofs.Graphs
import RecordGraph.Proofs.Saving.ForeignKeys

namespace RecordGraph

variable {σ : Type}

/-- Identifiers behind those that were held before, each once. -/
def joinIds (held fresh : List String) : List String :=
  fresh.foldl (fun ids id => if ids.contains id then ids else ids ++ [id]) held

theorem mem_joinIds {held fresh : List String} {id : String} :
    id ∈ joinIds held fresh ↔ id ∈ held ∨ id ∈ fresh := by
  induction fresh generalizing held with
  | nil => simp [joinIds]
  | cons first rest ih =>
      have hstep : joinIds held (first :: rest) =
          joinIds (if held.contains first then held else held ++ [first]) rest := rfl
      rw [hstep, ih]
      by_cases hheld : first ∈ held
      · simp only [List.contains_iff_mem, hheld, if_true, List.mem_cons]
        constructor
        · rintro (h | h)
          · exact .inl h
          · exact .inr (.inr h)
        · rintro (h | rfl | h)
          · exact .inl h
          · exact .inl hheld
          · exact .inr h
      · simp [hheld, or_assoc]

/-- New identifiers come last, each once and in their own order. -/
theorem joinIds_eq (held fresh : List String) :
    joinIds held fresh = held ++ (distinct fresh).filter fun id => !held.contains id := by
  induction fresh using List.reverseRecOn with
  | nil => simp [joinIds, distinct]
  | append_singleton fresh id ih =>
      have hstep : joinIds held (fresh ++ [id]) = if (joinIds held fresh).contains id then
          joinIds held fresh else joinIds held fresh ++ [id] := by
        rw [joinIds, List.foldl_append]
        rfl
      rw [hstep, distinct_concat]
      by_cases hheld : id ∈ held
      · rw [if_pos (by simpa using mem_joinIds.mpr (.inl hheld)), ih]
        split
        · rfl
        · simp [hheld]
      · by_cases hfresh : id ∈ fresh
        · rw [if_pos (by simpa using mem_joinIds.mpr (.inr hfresh)),
            if_pos (mem_distinct.mpr hfresh), ih]
        · rw [if_neg (by simp [mem_joinIds, hheld, hfresh]),
            if_neg (by simpa using hfresh), ih]
          simp [hheld]

/-- Identifiers that were held all before change nothing. -/
theorem joinIds_of_subset {held fresh : List String} (h : ∀ id ∈ fresh, id ∈ held) :
    joinIds held fresh = held := by
  induction fresh with
  | nil => rfl
  | cons first rest ih =>
      have hheld : held.contains first = true := by
        simpa using h first (by simp)
      show joinIds (if held.contains first then held else held ++ [first]) rest = held
      rw [if_pos hheld]
      exact ih fun id hid => h id (by simp [hid])

/-! ## Graphs with another record of a model -/

namespace Graph

/-- The graph in which a model has another record. -/
def setRecord (g : Graph σ) (m : Model) (r : Record) : Graph σ :=
  g.setModel m { g.model m with record := r }

variable {g : Graph σ} {m : Model} {r : Record}

@[simp] theorem model_setRecord (g : Graph σ) (m : Model) (r : Record) (n : Model) :
    (g.setRecord m r).model n =
      { g.model n with record := if m = n then r else (g.model n).record } := by
  rw [setRecord, model_setModel]
  split
  · rename_i hsame
    rw [hsame]
  · rfl

@[simp] theorem collection_setRecord (g : Graph σ) (m : Model) (r : Record) (c : Collection) :
    (g.setRecord m r).collection c = g.collection c := rfl

@[simp] theorem registry_setRecord (g : Graph σ) (m : Model) (r : Record) :
    (g.setRecord m r).registry = g.registry := rfl

@[simp] theorem store_setRecord (g : Graph σ) (m : Model) (r : Record) :
    (g.setRecord m r).store = g.store := rfl

theorem setRecord_setRecord (g : Graph σ) (m : Model) (r s : Record) :
    (g.setRecord m r).setRecord m s = g.setRecord m s := by
  simp [setRecord, setModel_setModel]

theorem setRecord_self (h : g.HasModel m) : g.setRecord m (g.model m).record = g :=
  setModel_self h

/-- With its own identifier on the new record, every model keeps its identifier. -/
theorem id_model_setRecord (hid : r.id = (g.model m).record.id) (x : Model) :
    ((g.setRecord m r).model x).record.id = (g.model x).record.id := by
  rw [model_setRecord]
  split
  · rename_i hsame
    rw [hid, hsame]
  · rfl

theorem HasModel.setRecord (h : g.HasModel m) (n : Model) (r : Record) :
    (g.setRecord n r).HasModel m :=
  Nat.lt_of_lt_of_le h (Cells.size_le_size_set _ _ _)

end Graph

/-! ## What a loaded relationship points at -/

theorem CollectionData.containsModel_iff {d : CollectionData} {m : Model} :
    d.containsModel m = true ↔ m ∈ d.members.values := by
  simp [containsModel, keyOf?, OrderedMap.values, List.find?_isSome]

namespace Graph

/-- The identifiers of the stored members of a collection. -/
def memberIds (g : Graph σ) (c : Collection) : List String :=
  (g.collection c).members.values.filterMap fun x => (g.model x).record.id

/-- The identifiers of the stored models in the snapshot of a collection that are no longer
members. -/
def goneIds (g : Graph σ) (c : Collection) : List String :=
  ((g.collection c).snapshot.values.filter fun x => !(g.collection c).containsModel x).filterMap
    fun x => (g.model x).record.id

theorem mem_memberIds {g : Graph σ} {c : Collection} {id : String} :
    id ∈ g.memberIds c ↔
      ∃ x ∈ (g.collection c).members.values, (g.model x).record.id = some id := by
  simp [memberIds]

theorem mem_goneIds {g : Graph σ} {c : Collection} {id : String} :
    id ∈ g.goneIds c ↔ ∃ x ∈ (g.collection c).snapshot.values,
      x ∉ (g.collection c).members.values ∧ (g.model x).record.id = some id := by
  simp [goneIds, ← CollectionData.containsModel_iff, and_assoc]

/-- What is loaded under the name calls for these identifiers in the foreign key, where `held`
are there so far: the identifier of a parent, or those of a collection behind the ones that it
did not lose. Nothing that is loaded is unsaved. -/
inductive PointsAt (g : Graph σ) (m : Model) (name : String) (r : Resolved)
    (held : List String) : List String → Prop where
  | parent {p : Model} {id : String} (hsingle : r.cardinality = .single)
      (hloaded : (g.model m).parents.get? name = some p) (hid : (g.model p).record.id = some id) :
      PointsAt g m name r held [id]
  | children {c : Collection} (hmultiple : r.cardinality = .multiple) (hside : r.side = .parent)
      (hloaded : (g.model m).children.get? name = some c)
      (hstored : ∀ x ∈ (g.collection c).members.values, (g.model x).record.id.isSome) :
      PointsAt g m name r held
        (joinIds (held.filter fun id => !(g.goneIds c).contains id) (g.memberIds c))

/-- The identifiers that what is loaded under the name calls for in the foreign key, where `held`
are there so far; those themselves, if nothing is loaded. -/
def references (g : Graph σ) (m : Model) (name : String) (r : Resolved) (held : List String) :
    List String :=
  match r.cardinality with
  | .single =>
    match (g.model m).parents.get? name with
    | some p => (g.model p).record.id.toList
    | none => held
  | .multiple =>
    match (g.model m).children.get? name with
    | some c =>
      let kept := held.filter fun id => !(g.goneIds c).contains id
      kept ++ (distinct (g.memberIds c)).filter fun id => !kept.contains id
    | none => held

/-- The fields of the record do not matter for what is called for. -/
theorem references_setRecord {g : Graph σ} {m : Model} {record : Record}
    (hid : record.id = (g.model m).record.id) (name : String) (r : Resolved)
    (held : List String) :
    (g.setRecord m record).references m name r held = g.references m name r held := by
  have hparents : ((g.setRecord m record).model m).parents = (g.model m).parents := by
    simp
  have hchildren : ((g.setRecord m record).model m).children = (g.model m).children := by
    simp
  simp only [references, goneIds, memberIds, hparents, hchildren, id_model_setRecord hid,
    collection_setRecord]

theorem PointsAt.eq_references {g : Graph σ} {m : Model} {name : String} {r : Resolved}
    {held ids : List String} (h : g.PointsAt m name r held ids) :
    ids = g.references m name r held := by
  cases h with
  | parent hsingle hloaded hid => simp [references, hsingle, hloaded, hid]
  | children hmultiple _ hloaded _ => simp only [references, hmultiple, hloaded, joinIds_eq]

/-- A key has room for what is called for. -/
theorem PointsAt.keeps {g : Graph σ} {m : Model} {name : String} {r : Resolved}
    {held ids : List String} (h : g.PointsAt m name r held ids) : r.cardinality.keeps ids = ids := by
  cases h with
  | parent hsingle _ _ =>
      rw [hsingle]
      rfl
  | children hmultiple _ _ _ =>
      rw [hmultiple]
      rfl

/-- A graph in which the same is loaded, and the same is stored of it, points at the same. -/
theorem PointsAt.of_eq {g t : Graph σ} {m : Model} {name : String} {r : Resolved}
    {held ids : List String} (h : t.PointsAt m name r held ids)
    (hparents : (t.model m).parents = (g.model m).parents)
    (hchildren : (t.model m).children = (g.model m).children)
    (hcollection : ∀ c, t.collection c = g.collection c)
    (hid : ∀ x, (t.model x).record.id = (g.model x).record.id) : g.PointsAt m name r held ids := by
  cases h with
  | parent hsingle hloaded hown =>
      rw [hparents] at hloaded
      rw [hid] at hown
      exact .parent hsingle hloaded hown
  | @children c hmultiple hside hloaded hstored =>
      rw [hchildren] at hloaded
      have hgone : t.goneIds c = g.goneIds c := by
        simp [goneIds, hcollection, hid]
      have hmembers : t.memberIds c = g.memberIds c := by
        simp [memberIds, hcollection, hid]
      rw [hgone, hmembers]
      refine .children hmultiple hside hloaded fun x hx => ?_
      rw [← hid]
      exact hstored x (by rw [hcollection]; exact hx)

end Graph

/-- The record with the foreign key of the relationship written anew. -/
def Resolved.writeKey (r : Resolved) (ids : List String) (record : Record) : Record :=
  record.setReferenceIds r.foreignKey.field r.foreignKey.column ids r.cardinality

@[simp] theorem Resolved.id_writeKey (r : Resolved) (ids : List String) (record : Record) :
    (r.writeKey ids record).id = record.id :=
  record.id_setReferenceIds _ _ _ _

@[simp] theorem Resolved.entityType_writeKey (r : Resolved) (ids : List String)
    (record : Record) : (r.writeKey ids record).entityType = record.entityType :=
  record.entityType_setReferenceIds _ _ _ _

namespace Registry

variable {g : Registry} {typeName name : String} {resolved : Resolved}

/-- The key that the own type declares under the name is that of the resolved relationship. -/
theorem foreignKey_of_declared (hg : g.WellFormed) (h : g.resolve typeName name = .ok resolved)
    {t : ModelType} (ht : g.get typeName = .ok t) {declared : Relationship} {k : ForeignKey}
    (hdeclared : t.relationship name = .ok declared) (hk : declared.foreignKey = .ok k) :
    resolved.side = .parent ∧ k = resolved.foreignKey := by
  obtain ⟨owner, found, howner, -, hfound, -, -, hresolve⟩ := declared_of_resolve hg h
  obtain rfl : t = owner := Except.ok.inj (ht.symm.trans howner)
  obtain rfl : declared = found := Except.ok.inj (hdeclared.symm.trans hfound)
  have hside : resolved.side = .parent :=
    (side_of_resolveRelationship hresolve).trans (Relationship.side_of_foreignKey hk)
  obtain ⟨hkey, -⟩ := resolveRelationship_parent hresolve hside
  exact ⟨hside, Except.ok.inj (hk.symm.trans hkey)⟩

end Registry

/-! ## Writing one key and all keys -/

theorem Collection.returns_ids {c : Collection} {g g' : Graph σ} {ids : List String}
    (h : Returns c.ids g ids g') : g' = g ∧ ids = g.memberIds c := by
  simp only [Collection.ids, returns_bind, returns_models, and_assoc, exists_eq_left,
    returns_pure] at h
  obtain ⟨read, last, hread, rfl, rfl⟩ := h
  obtain ⟨rfl, rfl⟩ := hread.mapM_of_reads (v := fun x => (g.model x).record.id)
    fun x y t hx => Model.returns_id.mp hx
  exact ⟨rfl, by simp [Graph.memberIds, List.filterMap_map]⟩

namespace Model

variable {m : Model} {g g' : Graph σ} {name : String}

@[simp] theorem returns_storedId {relationship id : String} :
    Returns (m.storedId relationship) g id g' ↔ g' = g ∧ (g.model m).record.id = some id := by
  simp only [storedId, returns_bind, returns_id, and_assoc, exists_eq_left]
  cases hid : (g.model m).record.id with
  | none => simp
  | some own => simp [eq_comm]

@[simp] theorem returns_updateRecord {f : Record → Record} {u : Unit} :
    Returns (m.updateRecord f) g u g' ↔
      g' = g.setRecord m (f (g.model m).record) := by
  simp [updateRecord, Graph.setRecord]

@[simp] theorem returns_setReferenceIds {k : ForeignKey} {ids : List String} {c : Cardinality}
    {u : Unit} : Returns (m.setReferenceIds k ids c) g u g' ↔
      g' = g.setRecord m ((g.model m).record.setReferenceIds k.field k.column ids c) := by
  simp [setReferenceIds]

/-- A single key is written anew if a parent is loaded. -/
theorem returns_syncParent {r : Resolved} {u : Unit} (hsingle : r.cardinality = .single)
    (h : Returns (m.syncParent r name) g u g') :
    (g' = g ∧ ∀ held, g.references m name r held = held) ∨ ∃ ids,
      g.PointsAt m name r (g.keyIds r.foreignKey m) ids ∧
        g' = g.setRecord m (r.writeKey ids (g.model m).record) := by
  simp only [syncParent, returns_bind, returns_cachedParent, and_assoc, exists_eq_left] at h
  cases hloaded : (g.model m).parents.get? name with
  | none =>
      rw [hloaded] at h
      exact .inl ⟨(returns_pure.mp h).1, fun held => by simp [Graph.references, hsingle, hloaded]⟩
  | some p =>
      simp only [hloaded, returns_bind, returns_storedId, and_assoc, exists_eq_left,
        returns_setReferenceIds] at h
      obtain ⟨id, hid, rfl⟩ := h
      exact .inr ⟨[id], .parent hsingle hloaded hid, by rw [Resolved.writeKey, hsingle]⟩

/-- A key for several identifiers is written anew if a collection is loaded. -/
theorem returns_syncParents {r : Resolved} {u : Unit} (hmultiple : r.cardinality = .multiple)
    (hkey : ∀ declared k, (g.model m).modelType.relationship name = .ok declared →
      declared.foreignKey = .ok k → r.side = .parent ∧ k = r.foreignKey)
    (h : Returns (m.syncParents r name) g u g') :
    (g' = g ∧ ∀ held, g.references m name r held = held) ∨ ∃ ids,
      g.PointsAt m name r (g.keyIds r.foreignKey m) ids ∧
        g' = g.setRecord m (r.writeKey ids (g.model m).record) := by
  simp only [syncParents, returns_bind, returns_cachedChildren, and_assoc, exists_eq_left] at h
  cases hloaded : (g.model m).children.get? name with
  | none =>
      rw [hloaded] at h
      exact .inl ⟨(returns_pure.mp h).1,
        fun held => by simp [Graph.references, hmultiple, hloaded]⟩
  | some c =>
      simp only [hloaded, returns_bind, Collection.returns_models, Collection.returns_data,
        and_assoc, exists_eq_left] at h
      obtain ⟨⟨⟩, checked, hcheck, removed, read, hremoved, kept, asked, hkept, fresh, last, hfresh,
        h⟩ := h
      obtain ⟨hsame, hstored⟩ := hcheck.forM_invariant (fun done t => t = g ∧
          ∀ x ∈ done, (g.model x).record.id.isSome) ⟨rfl, by simp⟩ (by
        rintro done x rest t t' - ⟨rfl, hdone⟩ hturn
        simp only [returns_bind, returns_storedId, returns_pure] at hturn
        obtain ⟨id, _, ⟨rfl, hid⟩, rfl, -⟩ := hturn
        refine ⟨rfl, fun y hy => ?_⟩
        rcases List.mem_append.mp hy with hy | hy
        · exact hdone y hy
        · rw [List.mem_singleton.mp hy, hid]
          rfl)
      obtain rfl := hsame.symm
      obtain ⟨rfl, rfl⟩ := hremoved.mapM_of_reads (v := fun x => (g.model x).record.id)
        fun x y t hx => returns_id.mp hx
      obtain ⟨rfl, declared, k, hdeclared, hk, rfl⟩ := returns_parentIds.mp hkept
      obtain ⟨rfl, rfl⟩ := Collection.returns_ids hfresh
      obtain ⟨hside, rfl⟩ := hkey declared k hdeclared hk
      rw [List.filterMap_map] at h
      exact .inr ⟨_, .children hmultiple hside hloaded hstored, by
        rw [Resolved.writeKey, hmultiple]
        exact returns_setReferenceIds.mp h⟩

/-- The key of one relationship stays as it was, or is as what is loaded calls for. -/
theorem returns_syncForeignKey {u : Unit} (hwf : g.registry.WellFormed)
    (htyped : g.registry.get (g.model m).modelType.name = .ok (g.model m).modelType)
    (hm : g.HasModel m) (h : Returns (m.syncForeignKey name) g u g') :
    ∃ r record, g.registry.resolve (g.model m).modelType.name name = .ok r ∧
      g' = g.setRecord m record ∧
      ((record = (g.model m).record ∧ ∀ held, g.references m name r held = held) ∨
        ∃ ids, g.PointsAt m name r (g.keyIds r.foreignKey m) ids ∧
          record = r.writeKey ids (g.model m).record) := by
  simp only [syncForeignKey, returns_bind, returns_resolve, and_assoc, exists_eq_left] at h
  obtain ⟨r, hresolve, h⟩ := h
  have hwritten : (g' = g ∧ ∀ held, g.references m name r held = held) ∨
      ∃ ids, g.PointsAt m name r (g.keyIds r.foreignKey m) ids ∧
        g' = g.setRecord m (r.writeKey ids (g.model m).record) := by
    cases hcard : r.cardinality with
    | single =>
        rw [hcard] at h
        exact returns_syncParent hcard h
    | multiple =>
        rw [hcard] at h
        exact returns_syncParents hcard (fun declared k hdeclared hk =>
          Registry.foreignKey_of_declared hwf hresolve htyped hdeclared hk) h
  rcases hwritten with ⟨rfl, hidle⟩ | ⟨ids, hids, rfl⟩
  · exact ⟨r, (g'.model m).record, hresolve, (Graph.setRecord_self hm).symm, .inl ⟨rfl, hidle⟩⟩
  · exact ⟨r, _, hresolve, rfl, .inr ⟨ids, hids, rfl⟩⟩

/-- Bringing all keys in line writes the record of the model and nothing else, and leaves its
identifier alone. What holds of the record and is kept by every key that is written anew holds
in the end. -/
theorem returns_syncForeignKeys {u : Unit} (hwf : g.registry.WellFormed)
    (htyped : g.registry.get (g.model m).modelType.name = .ok (g.model m).modelType)
    (hm : g.HasModel m) (h : Returns m.syncForeignKeys g u g') (Q : Record → Prop)
    (start : Q (g.model m).record)
    (turn : ∀ name r record ids, g.registry.resolve (g.model m).modelType.name name = .ok r →
      g.PointsAt m name r (record.referenceIds r.foreignKey.field r.foreignKey.column) ids →
      Q record → Q (r.writeKey ids record)) :
    ∃ record, g' = g.setRecord m record ∧
      record.id = (g.model m).record.id ∧
      record.entityType = (g.model m).record.entityType ∧ Q record := by
  let Inv (t : Graph σ) : Prop := ∃ record, t = g.setRecord m record ∧
    record.id = (g.model m).record.id ∧
    record.entityType = (g.model m).record.entityType ∧ Q record
  have hturn : ∀ name t t' v, Inv t → Returns (m.syncForeignKey name) t v t' → Inv t' := by
    rintro name t t' v ⟨record, rfl, hid, hentity, hrecord⟩ hsync
    obtain ⟨r, written, hresolve, rfl, hwritten⟩ := returns_syncForeignKey
      (g := g.setRecord m record) hwf (by simpa using htyped) (hm.setRecord m record) hsync
    have hown : ((g.setRecord m record).model m).record = record := by
      simp
    rw [hown] at hwritten
    refine ⟨written, Graph.setRecord_setRecord g m record written, ?_⟩
    rcases hwritten with ⟨rfl, -⟩ | ⟨ids, hids, rfl⟩
    · exact ⟨hid, hentity, hrecord⟩
    · have hpoints : g.PointsAt m name r
          (record.referenceIds r.foreignKey.field r.foreignKey.column) ids := by
        rw [Graph.keyIds, hown] at hids
        exact hids.of_eq (by simp) (by simp) (fun _ => rfl) (Graph.id_model_setRecord hid)
      exact ⟨by simpa using hid, by simpa using hentity,
        turn name r record ids (by simpa using hresolve) hpoints hrecord⟩
  simp only [syncForeignKeys, returns_bind, returns_data, and_assoc, exists_eq_left] at h
  obtain ⟨⟨⟩, between, hparents, h⟩ := h
  have hfirst : Inv between := hparents.forM_invariant (fun _ t => Inv t)
    ⟨_, (Graph.setRecord_self hm).symm, rfl, rfl, start⟩
    fun done name rest t t' _ ht hsync => hturn name t t' _ ht hsync
  refine h.forM_invariant (fun _ t => Inv t) hfirst ?_
  intro done name rest t t' _ ht hstep
  simp only [returns_bind, returns_resolve, and_assoc, exists_eq_left] at hstep
  obtain ⟨r, -, hstep⟩ := hstep
  split at hstep
  · exact hturn name t t' _ ht hstep
  · obtain ⟨rfl, -⟩ := returns_pure.mp hstep
    exact ht

end Model

end RecordGraph
