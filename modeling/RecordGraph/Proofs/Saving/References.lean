/-
# The references that a save writes

A save first brings the foreign keys of a model in line with what the model has loaded, one
relationship after the other. It stops at the first loaded model that has no identifier yet, and
then nothing is stored. Otherwise every relationship has its turn once. If each key has a field of
its own, no turn undoes another one, so in the end every key holds what the loaded models call for:
a single key the identifier of the parent, any other one what it held, without those that were taken
out since the snapshot, and behind that the identifiers of new members. A key of which nothing is
loaded holds what it held.
-/
import RecordGraph.Proofs.Saving.Keying

namespace RecordGraph

variable {σ : Type}

/-- The type keeps each foreign key in a field of its own, which is named without a point. -/
def ModelType.KeepsApart (t : ModelType) : Prop :=
  ∀ declared ∈ t.relationships.values, ∀ k ∈ declared.foreignKey.toOption,
    k.Plain ∧ t.UsesOnce k.field

instance (t : ModelType) : Decidable t.KeepsApart :=
  inferInstanceAs (Decidable (∀ declared ∈ t.relationships.values,
    ∀ k ∈ declared.foreignKey.toOption, k.Plain ∧ t.UsesOnce k.field))

/-- The key of a relationship that holds it is one of those. -/
theorem ModelType.KeepsApart.of_resolve {registry : Registry} {t : ModelType} {name : String}
    {r : Resolved} (h : t.KeepsApart) (hwf : registry.WellFormed)
    (ht : registry.get t.name = .ok t) (hresolve : registry.resolve t.name name = .ok r)
    (hside : r.side = .parent) : r.foreignKey.Plain ∧ t.UsesOnce r.foreignKey.field := by
  obtain ⟨owner, declared, howner, -, hdeclared, -, -, hresolves⟩ :=
    Registry.declared_of_resolve hwf hresolve
  obtain rfl := Except.ok.inj (ht.symm.trans howner)
  obtain ⟨hkey, -⟩ := Registry.resolveRelationship_parent hresolves hside
  refine h declared (OrderedMap.mem_values_iff.mpr
    ⟨name, ModelType.relationship_eq_ok.mp hdeclared⟩) r.foreignKey ?_
  rw [hkey]
  rfl

/-! ## Models that are referred to -/

namespace Graph

/-- The model is loaded in a relationship of the other one that holds the foreign key. -/
def RefersTo (g : Graph σ) (m : Model) (name : String) (x : Model) : Prop :=
  ∃ r, g.registry.resolve (g.model m).modelType.name name = .ok r ∧ r.side = .parent ∧
    g.HasLoaded m r x

/-- A relationship has its turn: its key stays if nothing is loaded, and is written otherwise. -/
inductive Rewrites (g : Graph σ) (m : Model) (name : String) (r : Resolved) (record : Record) :
    Record → Prop where
  | kept (h : ∀ held, g.references m name r held = held) : Rewrites g m name r record record
  | written {ids : List String} (h : g.PointsAt m name r
      (record.referenceIds r.foreignKey.field r.foreignKey.column) ids) :
      Rewrites g m name r record (r.writeKey ids record)

/-- The record of the model after the relationships of these names had their turn. What is loaded
in those that hold the key has an identifier. -/
inductive Rewritten (g : Graph σ) (m : Model) : List String → Record → Prop where
  | start : Rewritten g m [] (g.model m).record
  | turn {done : List String} {name : String} {r : Resolved} {record record' : Record}
      (h : Rewritten g m done record)
      (hresolve : g.registry.resolve (g.model m).modelType.name name = .ok r)
      (hside : r.side = .parent)
      (hstored : ∀ x, g.HasLoaded m r x → (g.model x).record.id.isSome)
      (hnext : g.Rewrites m name r record record') : Rewritten g m (done ++ [name]) record'
  | pass {done : List String} {name : String} {r : Resolved} {record : Record}
      (h : Rewritten g m done record)
      (hresolve : g.registry.resolve (g.model m).modelType.name name = .ok r)
      (hside : r.side = .child) : Rewritten g m (done ++ [name]) record

/-- A save stops with the error before anything is stored: a model that is referred to has no
identifier. Foreign keys of the model may have been written. -/
inductive StopsAt (g : Graph σ) (m : Model) : Error → Graph σ → Prop where
  | unsaved {name : String} {x : Model} {record : Record} (hrefers : g.RefersTo m name x)
      (hid : (g.model x).record.id = none) :
      StopsAt g m (.unsavedModel (g.model x).key name) (g.setRecord m record)

variable {g : Graph σ} {m x : Model} {name : String} {r : Resolved} {record written : Record}
  {done held : List String}

/-! ## What a turn leaves -/

theorem Rewrites.same (h : g.Rewrites m name r record written) : written.id = record.id ∧
    written.entityType = record.entityType ∧ written.bundle = record.bundle := by
  cases h with
  | kept _ => exact ⟨rfl, rfl, rfl⟩
  | written _ => exact ⟨by simp, by simp, by simp [Resolved.writeKey]⟩

/-- However many turns there were, it is the same record. -/
theorem Rewritten.same (h : g.Rewritten m done record) :
    record.id = (g.model m).record.id ∧ record.entityType = (g.model m).record.entityType ∧
      record.bundle = (g.model m).record.bundle := by
  induction h with
  | start => exact ⟨rfl, rfl, rfl⟩
  | turn _ _ _ _ hnext ih =>
      obtain ⟨hid, hentity, hbundle⟩ := hnext.same
      exact ⟨hid.trans ih.1, hentity.trans ih.2.1, hbundle.trans ih.2.2⟩
  | pass _ _ _ ih => exact ih

theorem Rewritten.stored (h : g.Rewritten m done record) (hname : name ∈ done)
    (hresolve : g.registry.resolve (g.model m).modelType.name name = .ok r)
    (hside : r.side = .parent) (hloaded : g.HasLoaded m r x) :
    (g.model x).record.id.isSome := by
  induction h with
  | start => cases hname
  | turn _ hown _ hstored _ ih =>
      rcases List.mem_append.mp hname with hbefore | hlast
      · exact ih hbefore
      · rw [List.mem_singleton.mp hlast] at hresolve
        exact hstored x (Except.ok.inj (hresolve.symm.trans hown) ▸ hloaded)
  | pass _ hown hchild ih =>
      rcases List.mem_append.mp hname with hbefore | hlast
      · exact ih hbefore
      · rw [List.mem_singleton.mp hlast] at hresolve
        rw [Except.ok.inj (hresolve.symm.trans hown), hchild] at hside
        cases hside

/-- No identifier that is called for is blank. -/
theorem ne_blank_of_mem_references (hids : ∀ x, (g.model x).record.id ≠ some "")
    (hheld : ∀ id ∈ held, id ≠ "") {id : String} (h : id ∈ g.references m name r held) :
    id ≠ "" := by
  unfold references at h
  split at h
  · split at h
    · rintro rfl
      exact hids _ (Option.mem_toList.mp h)
    · exact hheld id h
  · split at h
    · rcases List.mem_append.mp h with hkept | hfresh
      · exact hheld id (List.mem_filter.mp hkept).1
      · obtain ⟨x, -, hx⟩ := mem_memberIds.mp (mem_distinct.mp (List.mem_filter.mp hfresh).1)
        rintro rfl
        exact hids x hx
    · exact hheld id h

/-- After its turn a key holds what is called for. -/
theorem Rewrites.referenceIds (h : g.Rewrites m name r record written)
    (hplain : r.foreignKey.Plain) (hids : ∀ x, (g.model x).record.id ≠ some "") :
    written.referenceIds r.foreignKey.field r.foreignKey.column = g.references m name r
      (record.referenceIds r.foreignKey.field r.foreignKey.column) := by
  cases h with
  | kept h => rw [h]
  | written h =>
      have hkeeps : r.cardinality.keeps _ = _ := h.keeps
      rw [Resolved.writeKey, Record.referenceIds_setReferenceIds hplain, if_pos rfl, hkeeps,
        ← h.eq_references, List.filter_eq_self]
      intro id hid
      rw [h.eq_references] at hid
      simpa using ne_blank_of_mem_references hids
        (fun _ => Record.ne_blank_of_mem_referenceIds) hid

/-- The turn of a relationship leaves the keys in other fields alone. -/
theorem Rewrites.referenceIds_of_ne {k : ForeignKey} (h : g.Rewrites m name r record written)
    (hplain : k.Plain) (hne : r.foreignKey.field ≠ k.field) :
    written.referenceIds k.field k.column = record.referenceIds k.field k.column := by
  cases h with
  | kept _ => rfl
  | written _ => exact Record.referenceIds_setReferenceIds_of_ne hplain hne _ _ _ _

/-- A key of which nothing is loaded stays. -/
theorem references_of_not_loaded (hname : name ∉ (g.model m).parents.keys ++
    (g.model m).children.keys) (r : Resolved) (held : List String) :
    g.references m name r held = held := by
  simp only [List.mem_append, not_or, ← OrderedMap.contains_iff_mem_keys, OrderedMap.contains,
    Option.not_isSome_iff_eq_none] at hname
  unfold references
  rw [hname.1, hname.2]
  cases r.cardinality with
  | single => rfl
  | multiple => rfl

/-- No turn undoes another one. -/
theorem Rewritten.referenceIds (h : g.Rewritten m done record) (hg : g.WellFormed)
    (hm : g.HasModel m) (hkeys : (g.model m).modelType.KeepsApart)
    (hids : ∀ x, (g.model x).record.id ≠ some "") (honce : done.Nodup)
    (hresolve : g.registry.resolve (g.model m).modelType.name name = .ok r)
    (hside : r.side = .parent) :
    record.referenceIds r.foreignKey.field r.foreignKey.column =
      if name ∈ done then g.references m name r (g.keyIds r.foreignKey m)
      else g.keyIds r.foreignKey m := by
  obtain ⟨hplain, huses⟩ := hkeys.of_resolve hg.registry (hg.typed m hm) hresolve hside
  induction h with
  | start => rfl
  | @turn before other r' previous next _ hresolve' hside' _ hnext ih =>
      obtain ⟨hbefore, -, hfresh⟩ := List.nodup_append.mp honce
      by_cases hname : name = other
      · subst hname
        obtain rfl := Except.ok.inj (hresolve.symm.trans hresolve')
        have hnew : name ∉ before := fun hold => hfresh name hold name (by simp) rfl
        rw [hnext.referenceIds hplain hids, ih hbefore, if_neg hnew, if_pos (by simp)]
      · have hne : r'.foreignKey.field ≠ r.foreignKey.field := fun hfield =>
          hname (Registry.eq_of_usesOnce hg.registry (hg.typed m hm) huses hresolve hside
            hresolve' hside' hfield).1.symm
        rw [hnext.referenceIds_of_ne hplain hne, ih hbefore]
        simp [hname]
  | @pass before other r' previous _ hresolve' hchild ih =>
      have hname : name ≠ other := by
        rintro rfl
        rw [Except.ok.inj (hresolve.symm.trans hresolve'), hchild] at hside
        cases hside
      rw [ih (List.nodup_append.mp honce).1]
      simp [hname]

end Graph

/-! ## Turns that answer, and the first that fails -/

namespace Model

variable {g : Graph σ} {m x : Model} {name : String} {r : Resolved} {record : Record}
  {done : List String}

/-- A model without an identifier cannot be referred to. -/
theorem run_storedId_of_none (hid : (g.model x).record.id = none) (name : String) :
    x.storedId name g = (.error (.unsavedModel (g.model x).key name), g) := by
  rw [storedId, (returns_id.mpr ⟨rfl, rfl⟩).run_bind, hid]
  rfl

/-- All models of a list have an identifier, or the first one that has none is reported. -/
theorem forM_storedId_cases (ms : List Model) (name : String) (g : Graph σ) :
    (Returns (ms.forM fun x => do let _ ← x.storedId name) g () g ∧
      ∀ x ∈ ms, (g.model x).record.id.isSome) ∨
    ∃ x ∈ ms, (g.model x).record.id = none ∧
      (ms.forM fun x => do let _ ← x.storedId name) g =
        (.error (.unsavedModel (g.model x).key name), g) := by
  refine Or.imp ?_ ?_ (forM_answers_or_fails (fun x => do let _ ← x.storedId name) ms
    (fun done t => t = g ∧ ∀ x ∈ done, (g.model x).record.id.isSome)
    (fun e t => t = g ∧ ∃ x ∈ ms, (g.model x).record.id = none ∧
      e = .unsavedModel (g.model x).key name) ⟨rfl, by simp⟩ ?_)
  · rintro ⟨_, hrun, rfl, hstored⟩
    exact ⟨hrun, hstored⟩
  · rintro ⟨_, _, hrun, rfl, x, hx, hid, rfl⟩
    exact ⟨x, hx, hid, hrun⟩
  · rintro done x rest t hsplit ⟨rfl, hdone⟩
    cases hid : (t.model x).record.id with
    | none =>
        exact .inr ⟨_, t, run_bind_of_error (run_storedId_of_none hid name) _, rfl, x,
          by simp [hsplit], hid, rfl⟩
    | some id =>
        refine .inl ⟨t, returns_bind.mpr ⟨id, t, returns_storedId.mpr ⟨rfl, hid⟩,
          returns_pure.mpr ⟨rfl, rfl⟩⟩, rfl, fun y hy => ?_⟩
        rcases List.mem_append.mp hy with hy | hy
        · exact hdone y hy
        · rw [List.mem_singleton.mp hy, hid]
          rfl

theorem returns_mapM_id (ms : List Model) (g : Graph σ) :
    Returns (ms.mapM Model.id?) g (ms.map fun x => (g.model x).record.id) g := by
  have hsucceeds : Succeeds (ms.mapM Model.id?) g :=
    Succeeds.mapM (fun x _ t => ⟨_, _, returns_id.mpr ⟨rfl, rfl⟩⟩) g
  obtain ⟨ids, t, hrun⟩ := hsucceeds
  obtain ⟨rfl, rfl⟩ := hrun.mapM_of_reads (v := fun x => (g.model x).record.id)
    fun x y t hx => returns_id.mp hx
  exact hrun

/-- A single key is brought in line with a parent that is stored; no other one is accepted. -/
theorem syncParent_cases (m : Model) (r : Resolved) (name : String) (g : Graph σ) :
    (Succeeds (m.syncParent r name) g ∧ ∀ p, (g.model m).parents.get? name = some p →
      (g.model p).record.id.isSome) ∨
    ∃ p, (g.model m).parents.get? name = some p ∧ (g.model p).record.id = none ∧
      m.syncParent r name g = (.error (.unsavedModel (g.model p).key name), g) := by
  have hread : Returns (m.cachedParent? name) g ((g.model m).parents.get? name) g :=
    returns_cachedParent.mpr ⟨rfl, rfl⟩
  cases hp : (g.model m).parents.get? name with
  | none =>
      rw [hp] at hread
      exact .inl ⟨hread.succeeds_bind (succeeds_pure _ _), by simp⟩
  | some p =>
      rw [hp] at hread
      cases hid : (g.model p).record.id with
      | none =>
          refine .inr ⟨p, rfl, hid, ?_⟩
          rw [syncParent, hread.run_bind]
          exact run_bind_of_error (run_storedId_of_none hid name) _
      | some id =>
          refine .inl ⟨hread.succeeds_bind ((returns_storedId.mpr ⟨rfl, hid⟩).succeeds_bind
            ⟨(), _, returns_setReferenceIds.mpr rfl⟩), ?_⟩
          rintro _ ⟨⟩
          rw [hid]
          rfl

/-- A key for several identifiers is brought in line with members that are stored; no other ones
are accepted. -/
theorem syncParents_cases {declared : Relationship} {k : ForeignKey} (r : Resolved)
    (hdeclared : (g.model m).modelType.relationship name = .ok declared)
    (hkey : declared.foreignKey = .ok k) :
    (Succeeds (m.syncParents r name) g ∧ ∀ c, (g.model m).children.get? name = some c →
      ∀ x ∈ (g.collection c).members.values, (g.model x).record.id.isSome) ∨
    ∃ c x, (g.model m).children.get? name = some c ∧ x ∈ (g.collection c).members.values ∧
      (g.model x).record.id = none ∧
      m.syncParents r name g = (.error (.unsavedModel (g.model x).key name), g) := by
  have hread : Returns (m.cachedChildren? name) g ((g.model m).children.get? name) g :=
    returns_cachedChildren.mpr ⟨rfl, rfl⟩
  cases hc : (g.model m).children.get? name with
  | none =>
      rw [hc] at hread
      exact .inl ⟨hread.succeeds_bind (succeeds_pure _ _), by simp⟩
  | some c =>
      rw [hc] at hread
      have hmembers : Returns c.models g (g.collection c).members.values g :=
        Collection.returns_models.mpr ⟨rfl, rfl⟩
      rcases forM_storedId_cases (g.collection c).members.values name g with
        ⟨hcheck, hstored⟩ | ⟨x, hx, hid, hcheck⟩
      · refine .inl ⟨hread.succeeds_bind (hmembers.succeeds_bind (hcheck.succeeds_bind ?_)), ?_⟩
        · refine (Collection.returns_data.mpr ⟨rfl, rfl⟩).succeeds_bind ?_
          refine (returns_mapM_id _ _).succeeds_bind ?_
          refine (returns_parentIds.mpr ⟨rfl, declared, k, hdeclared, hkey, rfl⟩).succeeds_bind ?_
          refine Returns.succeeds_bind (returns_bind.mpr ⟨_, _, hmembers,
            returns_bind.mpr ⟨_, _, returns_mapM_id _ _, returns_pure.mpr ⟨rfl, rfl⟩⟩⟩) ?_
          exact ⟨(), _, returns_setReferenceIds.mpr rfl⟩
        · rintro _ ⟨⟩
          exact hstored
      · refine .inr ⟨c, x, rfl, hx, hid, ?_⟩
        rw [syncParents, hread.run_bind]
        exact (hmembers.run_bind _).trans (run_bind_of_error hcheck _)

/-- A turn that answers is a turn: what it leaves is known. -/
theorem exists_rewrites (hwf : g.registry.WellFormed)
    (htyped : g.registry.get (g.model m).modelType.name = .ok (g.model m).modelType)
    (hm : g.HasModel m) (hresolve : g.registry.resolve (g.model m).modelType.name name = .ok r)
    (h : Succeeds (m.syncForeignKey name) g) :
    ∃ record, Returns (m.syncForeignKey name) g () (g.setRecord m record) ∧
      g.Rewrites m name r (g.model m).record record := by
  obtain ⟨⟨⟩, g', hrun⟩ := h
  obtain ⟨other, record, hother, rfl, hwritten⟩ := returns_syncForeignKey hwf htyped hm hrun
  obtain rfl := Except.ok.inj (hresolve.symm.trans hother)
  refine ⟨record, hrun, ?_⟩
  rcases hwritten with ⟨rfl, hidle⟩ | ⟨ids, hids, rfl⟩
  · exact .kept hidle
  · exact .written hids

/-- A relationship that holds the key has its turn, unless a model that is loaded in it is not
stored. -/
theorem syncForeignKey_cases (hwf : g.registry.WellFormed)
    (htyped : g.registry.get (g.model m).modelType.name = .ok (g.model m).modelType)
    (hm : g.HasModel m) (hresolve : g.registry.resolve (g.model m).modelType.name name = .ok r)
    (hside : r.side = .parent) :
    (∃ record, Returns (m.syncForeignKey name) g () (g.setRecord m record) ∧
      (∀ x, g.HasLoaded m r x → (g.model x).record.id.isSome) ∧
      g.Rewrites m name r (g.model m).record record) ∨
    ∃ x, g.HasLoaded m r x ∧ (g.model x).record.id = none ∧
      m.syncForeignKey name g = (.error (.unsavedModel (g.model x).key name), g) := by
  obtain rfl := Registry.name_of_resolve hwf hresolve
  have hread : Returns (m.resolve r.name) g r g := returns_resolve.mpr ⟨rfl, hresolve⟩
  have hholds := Resolved.holdsSingle_of_parent hside
  cases hcardinality : r.cardinality with
  | single =>
      rw [hcardinality] at hholds
      have hrun : m.syncForeignKey r.name g = m.syncParent r r.name g := by
        rw [syncForeignKey, hread.run_bind, hcardinality]
      rcases syncParent_cases m r r.name g with ⟨⟨u, t, hsync⟩, hstored⟩ | ⟨p, hp, hid, hfails⟩
      · obtain ⟨record, hreturns, hrewrites⟩ :=
          exists_rewrites hwf htyped hm hresolve ⟨u, t, hrun.trans hsync⟩
        exact .inl ⟨record, hreturns, fun x hx =>
          hstored x ((Graph.hasLoaded_of_single hholds).mp hx), hrewrites⟩
      · exact .inr ⟨p, (Graph.hasLoaded_of_single hholds).mpr hp, hid, hrun.trans hfails⟩
  | multiple =>
      rw [hcardinality] at hholds
      have hrun : m.syncForeignKey r.name g = m.syncParents r r.name g := by
        rw [syncForeignKey, hread.run_bind, hcardinality]
      obtain ⟨owner, declared, howner, -, hdeclared, -, -, hresolves⟩ :=
        Registry.declared_of_resolve hwf hresolve
      obtain rfl := Except.ok.inj (htyped.symm.trans howner)
      obtain ⟨hkey, -⟩ := Registry.resolveRelationship_parent hresolves hside
      rcases syncParents_cases r hdeclared hkey with
        ⟨⟨u, t, hsync⟩, hstored⟩ | ⟨c, x, hc, hx, hid, hfails⟩
      · obtain ⟨record, hreturns, hrewrites⟩ :=
          exists_rewrites hwf htyped hm hresolve ⟨u, t, hrun.trans hsync⟩
        refine .inl ⟨record, hreturns, fun x hx => ?_, hrewrites⟩
        obtain ⟨c, hc, hmember⟩ := (Graph.hasLoaded_of_many hholds).mp hx
        exact hstored c hc x hmember
      · exact .inr ⟨x, (Graph.hasLoaded_of_many hholds).mpr ⟨c, hc, hx⟩, hid, hrun.trans hfails⟩

/-- After any turns the next one is had, or the save stops. -/
theorem syncForeignKey_next (hg : g.WellFormed) (hm : g.HasModel m)
    (h : g.Rewritten m done record)
    (hresolve : g.registry.resolve (g.model m).modelType.name name = .ok r)
    (hside : r.side = .parent) :
    (∃ t, Returns (m.syncForeignKey name) (g.setRecord m record) () t ∧
      ∃ record', t = g.setRecord m record' ∧ g.Rewritten m (done ++ [name]) record') ∨
    ∃ e t, m.syncForeignKey name (g.setRecord m record) = (.error e, t) ∧ g.StopsAt m e t := by
  have hids := Graph.id_model_setRecord h.same.1
  rcases syncForeignKey_cases (g := g.setRecord m record) (m := m) hg.registry
      (by simpa using hg.typed m hm) (hm.setRecord m record) (by simpa using hresolve) hside with
    ⟨record', hrun, hstored, hrewrites⟩ | ⟨x, hloaded, hid, hrun⟩
  · rw [Graph.setRecord_setRecord] at hrun
    refine .inl ⟨_, hrun, record', rfl, h.turn hresolve hside (fun x hx => ?_) ?_⟩
    · rw [← hids x]
      exact hstored x (Graph.hasLoaded_setRecord.mpr hx)
    · have hown : ((g.setRecord m record).model m).record = record := by
        simp
      rw [hown] at hrewrites
      cases hrewrites with
      | kept hidle =>
          refine .kept fun held => ?_
          rw [← Graph.references_setRecord h.same.1, hidle]
      | written hpoints =>
          exact .written (hpoints.of_eq (by simp) (by simp) (fun _ => rfl) hids)
  · refine .inr ⟨_, _, hrun, ?_⟩
    have hkey : ((g.setRecord m record).model x).key = (g.model x).key := by
      simp
    rw [hkey]
    exact .unsaved ⟨r, hresolve, hside, Graph.hasLoaded_setRecord.mp hloaded⟩
      ((hids x).symm.trans hid)

/-- The relationships with a loaded parent have their turn, or the save stops. -/
theorem forM_parents_cases (hg : g.WellFormed) (hm : g.HasModel m)
    (hparents : ∀ name p, (g.model m).parents.get? name = some p →
      ∃ r, g.registry.resolve (g.model m).modelType.name name = .ok r ∧ r.side = .parent) :
    (∃ t, Returns ((g.model m).parents.keys.forM m.syncForeignKey) g () t ∧
      ∃ record, t = g.setRecord m record ∧ g.Rewritten m (g.model m).parents.keys record) ∨
    ∃ e t, (g.model m).parents.keys.forM m.syncForeignKey g = (.error e, t) ∧ g.StopsAt m e t := by
  refine forM_answers_or_fails m.syncForeignKey (g.model m).parents.keys
    (fun done t => ∃ record, t = g.setRecord m record ∧ g.Rewritten m done record) (g.StopsAt m)
    ⟨_, (Graph.setRecord_self hm).symm, .start⟩ ?_
  rintro done name rest _ hsplit ⟨record, rfl, hdone⟩
  obtain ⟨p, hp⟩ := Option.isSome_iff_exists.mp
    ((OrderedMap.contains_iff_mem_keys (g.model m).parents name).mpr (by simp [hsplit]))
  obtain ⟨r, hresolve, hside⟩ := hparents name p hp
  exact syncForeignKey_next hg hm hdone hresolve hside

/-- Behind them the relationships with a loaded collection have their turn, or the save stops. -/
theorem forM_children_cases (hg : g.WellFormed) (hm : g.HasModel m)
    (hchildren : ∀ name c, (g.model m).children.get? name = some c →
      ∃ r, g.registry.resolve (g.model m).modelType.name name = .ok r)
    (h : g.Rewritten m done record) :
    (∃ t, Returns ((g.model m).children.keys.forM fun name => do
        if (← m.resolve name).side = RelationshipSide.parent then m.syncForeignKey name)
        (g.setRecord m record) () t ∧
      ∃ record', t = g.setRecord m record' ∧
        g.Rewritten m (done ++ (g.model m).children.keys) record') ∨
    ∃ e t, ((g.model m).children.keys.forM fun name => do
        if (← m.resolve name).side = RelationshipSide.parent then m.syncForeignKey name)
      (g.setRecord m record) = (.error e, t) ∧ g.StopsAt m e t := by
  refine forM_answers_or_fails (fun name => do
      if (← m.resolve name).side = RelationshipSide.parent then m.syncForeignKey name)
    (g.model m).children.keys (fun also t => ∃ record', t = g.setRecord m record' ∧
      g.Rewritten m (done ++ also) record') (g.StopsAt m) ⟨record, rfl, by simpa using h⟩ ?_
  rintro also name rest _ hsplit ⟨record', rfl, hdone⟩
  obtain ⟨c, hc⟩ := Option.isSome_iff_exists.mp
    ((OrderedMap.contains_iff_mem_keys (g.model m).children name).mpr (by simp [hsplit]))
  obtain ⟨r, hresolve⟩ := hchildren name c hc
  have hread : Returns (m.resolve name) (g.setRecord m record') r (g.setRecord m record') :=
    returns_resolve.mpr ⟨rfl, by simpa using hresolve⟩
  have hasked := hread.run_bind fun r =>
    if r.side = RelationshipSide.parent then m.syncForeignKey name else pure ()
  rw [← List.append_assoc]
  cases hside : r.side with
  | parent =>
      rw [if_pos hside] at hasked
      refine Or.imp ?_ ?_ (syncForeignKey_next hg hm hdone hresolve hside)
      · rintro ⟨t, hturn, hnext⟩
        exact ⟨t, hasked.trans hturn, hnext⟩
      · rintro ⟨e, t, hturn, hstops⟩
        exact ⟨e, t, hasked.trans hturn, hstops⟩
  | child =>
      rw [if_neg (by simp [hside])] at hasked
      exact .inl ⟨_, hasked, record', rfl, hdone.pass hresolve hside⟩

/-- All relationships of which something is loaded have their turn, or the save stops. -/
theorem syncForeignKeys_cases (hg : g.WellFormed) (hm : g.HasModel m)
    (hparents : ∀ name p, (g.model m).parents.get? name = some p →
      ∃ r, g.registry.resolve (g.model m).modelType.name name = .ok r ∧ r.side = .parent)
    (hchildren : ∀ name c, (g.model m).children.get? name = some c →
      ∃ r, g.registry.resolve (g.model m).modelType.name name = .ok r) :
    (∃ record, Returns m.syncForeignKeys g () (g.setRecord m record) ∧
      g.Rewritten m ((g.model m).parents.keys ++ (g.model m).children.keys) record) ∨
    ∃ e t, m.syncForeignKeys g = (.error e, t) ∧ g.StopsAt m e t := by
  have hread : ∀ t : Graph σ, Returns m.data t (t.model m) t :=
    fun t => returns_data.mpr ⟨rfl, rfl⟩
  rcases forM_parents_cases hg hm hparents with
    ⟨_, hfirst, record, rfl, hdone⟩ | ⟨e, t, hfirst, hstops⟩
  · have hrun : m.syncForeignKeys g = ((g.model m).children.keys.forM fun name => do
        if (← m.resolve name).side = RelationshipSide.parent then m.syncForeignKey name)
          (g.setRecord m record) := by
      rw [syncForeignKeys, (hread g).run_bind, hfirst.run_bind, (hread _).run_bind,
        Graph.model_setRecord]
    rcases forM_children_cases hg hm hchildren hdone with
      ⟨_, hlast, record', rfl, hall⟩ | ⟨e, t, hlast, hstops⟩
    · exact .inl ⟨record', hrun.trans hlast, hall⟩
    · exact .inr ⟨e, t, hrun.trans hlast, hstops⟩
  · refine .inr ⟨e, t, ?_, hstops⟩
    rw [syncForeignKeys, (hread g).run_bind, run_bind_of_error hfirst]

end Model

/-! ## Saving -/

namespace Graph

variable {g : Graph σ} {m x : Model} {name : String} {record : Record}

/-- No relationship has two turns. -/
theorem Orderly.nodup_loaded (h : g.Orderly) (m : Model) :
    ((g.model m).parents.keys ++ (g.model m).children.keys).Nodup := by
  rw [List.nodup_append]
  refine ⟨(g.model m).parents.keys_nodup, (g.model m).children.keys_nodup, ?_⟩
  rintro name hparent _ hchild rfl
  obtain ⟨p, hp⟩ := Option.isSome_iff_exists.mp
    ((OrderedMap.contains_iff_mem_keys (g.model m).parents name).mpr hparent)
  obtain ⟨c, hc⟩ := Option.isSome_iff_exists.mp
    ((OrderedMap.contains_iff_mem_keys (g.model m).children name).mpr hchild)
  have hsingle := h.parents m name p hp
  rw [(h.children m name c hc).1] at hsingle
  cases hsingle

/-- A relationship in which a model is loaded has a turn. -/
theorem RefersTo.isSome_id (h : g.RefersTo m name x) (hg : g.WellFormed)
    (hall : g.Rewritten m ((g.model m).parents.keys ++ (g.model m).children.keys) record) :
    (g.model x).record.id.isSome := by
  obtain ⟨r, hresolve, hside, hloaded⟩ := h
  obtain rfl := Registry.name_of_resolve hg.registry hresolve
  refine hall.stored ?_ hresolve hside hloaded
  simp only [List.mem_append, ← OrderedMap.contains_iff_mem_keys, OrderedMap.contains]
  cases hsingle : r.holdsSingle with
  | true =>
      rw [hasLoaded_of_single hsingle] at hloaded
      exact .inl (by rw [hloaded]; rfl)
  | false =>
      obtain ⟨c, hc, -⟩ := (hasLoaded_of_many hsingle).mp hloaded
      exact .inr (by rw [hc]; rfl)

end Graph

/-- Every relationship that the type of the model declares resolves. -/
def Graph.Resolves (g : Graph σ) (m : Model) : Prop :=
  ∀ name ∈ (g.model m).modelType.relationships.keys,
    (g.registry.resolve (g.model m).modelType.name name).isOk = true

instance (g : Graph σ) (m : Model) : Decidable (g.Resolves m) :=
  inferInstanceAs (Decidable (∀ _ ∈ _, _))

namespace Model

variable [RecordStore σ] {g : Graph σ} {m : Model}

/-- Where all relationships resolve and the store does not fail, a model is stored once all
relationships had their turn, or the save stops before. -/
theorem saveRecord_cases (hg : g.WellFormed) (hm : g.HasModel m) (horderly : g.Orderly)
    (hresolves : g.Resolves m)
    (hstore : ∀ record, (RecordStore.save record g.store).1.isOk = true) :
    (∃ sent stored store, RecordStore.save sent g.store = (.ok stored, store) ∧
      Returns m.saveRecord g () (Graph.setRecord { g with store := store } m stored) ∧
      g.Rewritten m ((g.model m).parents.keys ++ (g.model m).children.keys) sent) ∨
    ∃ e t, m.saveRecord g = (.error e, t) ∧ g.StopsAt m e t := by
  have hparents : ∀ name p, (g.model m).parents.get? name = some p →
      ∃ r, g.registry.resolve (g.model m).modelType.name name = .ok r ∧ r.side = .parent := by
    intro name p hp
    have hholds := horderly.parents m name p hp
    have hdeclared : name ∈ (g.model m).modelType.relationships.keys := by
      rw [← OrderedMap.contains_iff_mem_keys, OrderedMap.contains]
      obtain ⟨declared, hdeclared, -⟩ := (Option.any_eq_true _ _).mp hholds
      rw [hdeclared]
      rfl
    have hresolve := eq_ok_of_isOk (hresolves name hdeclared) default
    exact ⟨_, hresolve, horderly.side_of_parent hg hm hp hresolve⟩
  rcases syncForeignKeys_cases hg hm hparents fun name c hc =>
      (horderly.children m name c hc).2 with ⟨sent, hsync, hall⟩ | ⟨e, t, hsync, hstops⟩
  · obtain ⟨stored, store, hcall⟩ : ∃ stored store,
        RecordStore.save sent g.store = (.ok stored, store) :=
      ⟨_, _, Prod.ext (eq_ok_of_isOk (hstore sent) default) rfl⟩
    refine .inl ⟨sent, stored, store, hcall, ?_, hall⟩
    have hown : ((g.setRecord m sent).model m).record = sent := by
      simp
    simp only [saveRecord, returns_bind, returns_record, returns_call, returns_updateRecord,
      and_assoc, exists_eq_left]
    refine ⟨(), _, hsync, stored, _, ⟨store, ?_, rfl⟩, ?_⟩
    · rw [hown]
      exact hcall
    · exact (Graph.setRecord_setRecord { g with store := store } m sent stored).symm
  · exact .inr ⟨e, t, run_bind_of_error hsync _, hstops⟩

end Model

/-- The type of a model keeps each of its foreign keys in a field of its own, named without a point,
all its relationships resolve, and the store does not fail. Saving the model fails exactly when a
model that is loaded in a relationship with a key has no identifier; the failure names such a model,
and whatever the store is, one that notes every call too, it stays as it was. Otherwise one record is
stored: it is the record of the model, and each of its keys holds what is loaded, or what it held
before, if nothing is loaded. -/
theorem save_writes_references [RecordStore σ] {Kept : σ → Prop} {g : Graph σ} {m : Model}
    (hkept : RecordStore.Keeps Kept) (hreach : Graph.Reachable Kept g) (hm : g.HasModel m)
    (hkeys : (g.model m).modelType.KeepsApart) (hresolves : g.Resolves m)
    (hids : ∀ x, (g.model x).record.id ≠ some "")
    (hstore : ∀ record, (RecordStore.save record g.store).1.isOk = true) :
    ((∃ key name, ((Related.model m).save none g).1 = .error (.unsavedModel key name)) ↔
      ∃ name x, g.RefersTo m name x ∧ (g.model x).record.id = none) ∧
    (∀ e g', (Related.model m).save none g = (.error e, g') →
      g.StopsAt m e g' ∧ g'.store = g.store) ∧
    ((∀ name x, g.RefersTo m name x → (g.model x).record.id.isSome) →
      ∃ sent stored store, RecordStore.save sent g.store = (.ok stored, store) ∧
        Returns ((Related.model m).save none) g ()
          (Graph.setRecord { g with store := store } m stored) ∧
        sent.id = (g.model m).record.id ∧
        sent.entityType = (g.model m).record.entityType ∧
        sent.bundle = (g.model m).record.bundle ∧
        ∀ name r, g.registry.resolve (g.model m).modelType.name name = .ok r →
          r.side = .parent → sent.referenceIds r.foreignKey.field r.foreignKey.column =
            g.references m name r (g.keyIds r.foreignKey m)) := by
  have hg := (hreach.sound hkept).wellFormed
  have horderly := hreach.orderly hkept
  have hsave : (Related.model m).save none g = m.saveRecord g := rfl
  rcases Model.saveRecord_cases hg hm horderly hresolves hstore with
    ⟨sent, stored, store, hcall, hrun, hall⟩ | ⟨e, t, hrun, hstops⟩
  · have hanswers : (Related.model m).save none g = (.ok (), _) := hsave.trans hrun
    have hrefers : ∀ name x, g.RefersTo m name x → (g.model x).record.id.isSome :=
      fun name x hx => hx.isSome_id hg hall
    refine ⟨⟨?_, ?_⟩, ?_, fun _ => ⟨sent, stored, store, hcall, hrun, hall.same.1, hall.same.2.1,
      hall.same.2.2, fun name r hresolve hside => ?_⟩⟩
    · rintro ⟨key, name, hfails⟩
      rw [hanswers] at hfails
      cases hfails
    · rintro ⟨name, x, hx, hid⟩
      have hsome := hrefers name x hx
      rw [hid] at hsome
      cases hsome
    · intro e g' hfails
      rw [hanswers] at hfails
      cases hfails
    · rw [hall.referenceIds hg hm hkeys hids (horderly.nodup_loaded m) hresolve hside]
      split
      · rfl
      · rename_i hname
        rw [Graph.references_of_not_loaded hname]
  · have hfails : (Related.model m).save none g = (.error e, t) := hsave.trans hrun
    cases hstops with
    | @unsaved name x record hrefers hid =>
        refine ⟨⟨fun _ => ⟨name, x, hrefers, hid⟩, fun _ => ⟨_, name, by rw [hfails]⟩⟩,
          fun e' g' hother => ?_, fun hall => ?_⟩
        · rw [hfails] at hother
          cases hother
          exact ⟨.unsaved hrefers hid, rfl⟩
        · have hsome := hall name x hrefers
          rw [hid] at hsome
          cases hsome

namespace Library

/-- A book with one editor and any number of writers. -/
def anthology : ModelType :=
  ((ModelType.new "book" "node" "book").declare (.field "editor" "edited" "author")).declare
    ((Relationship.field "writers" "writer" "author").withCardinality .multiple)

/-- Its types; authors know nothing of their books. -/
def shelfTypes : List ModelType := [ModelType.new "author" "node" "author", anthology]

/-- Poems of three writers, one of whom is not stored any more. -/
def poems : Record :=
  (((Record.new "node" "book").withId "poems").setReferenceIds "edited" "target_id" ["ann"]
    .single).setReferenceIds "writer" "target_id" ["bob", "lost", "ann"] .multiple

/-- The poems and the authors. -/
def poemsStore : MemoryStore :=
  [(Record.new "node" "author").withId "ann", (Record.new "node" "author").withId "bob",
    (Record.new "node" "author").withId "eve", poems].foldl (fun s r => (s.seed r).2)
    MemoryStore.empty

theorem filed_poemsStore : poemsStore.Filed :=
  (((MemoryStore.filed_empty.seed _).seed _).seed _).seed _

/-- The graph with the poems forged, their editor and their writers fetched, and the first writer
taken out. -/
def thinned : Graph MemoryStore :=
  let g := (Session.start ⟨"PLH", .and, some 1, false⟩
    (Graph.new poemsStore (registry shelfTypes))).2
  let g := (Model.forgeById session "book" "poems" g).2
  let g := ((Related.model ⟨0⟩).fetch ["editor"] none g).2
  let g := ((Related.model ⟨0⟩).fetch ["writers"] none g).2
  (Collection.removeModel ⟨0⟩ ⟨2⟩ g).2

theorem reachable_thinned : Graph.Reachable MemoryStore.Filed thinned := by
  have htypes : ∀ t ∈ shelfTypes, t.WellFormed := by
    simp [shelfTypes, anthology, ModelType.wellFormed_new, ModelType.WellFormed.declare]
  refine .call (.call (.call (.call (.call (.new filed_poemsStore (wellFormed_registry htypes))
    (.start _)) (.forgeById _ _ _)) (.fetch ?_ _ _)) (.fetch ?_ _ _)) (.removeModel ?_ _)
  · show Graph.HasModel _ ⟨0⟩
    decide +kernel
  · show Graph.HasModel _ ⟨0⟩
    decide +kernel
  · decide +kernel

/-- Another author has joined the writers. -/
def revised : Graph MemoryStore :=
  (Collection.put ⟨0⟩ ⟨4⟩ (Model.forgeById session "author" "eve" thinned).2).2

/-- The author that has joined the writers is not stored. -/
def unsettled : Graph MemoryStore :=
  (Collection.put ⟨0⟩ ⟨4⟩ (Model.forgeNew session "author" thinned).2).2

/-- No model has a blank identifier if none that was made has one. -/
theorem ids_of_all {g : Graph MemoryStore}
    (h : ∀ d ∈ g.models.items.toList, d.record.id ≠ some "") (x : Model) :
    (g.model x).record.id ≠ some "" := by
  by_cases hx : g.HasModel x
  · rw [Graph.model, Cells.get, Array.getElem?_eq_getElem hx]
    exact h _ (Array.getElem_mem_toList hx)
  · rw [Graph.model_of_not_hasModel hx]
    intro hblank
    cases hblank

/-- The relationship of the book has its key in this field, and calls for these identifiers. -/
def CallsFor (g : Graph MemoryStore) (name field : String) (ids : List String) : Prop :=
  (g.registry.resolve (g.model ⟨0⟩).modelType.name name).isOk = true ∧
    (resolvedOf g ⟨0⟩ name).side = .parent ∧
    (resolvedOf g ⟨0⟩ name).foreignKey = ⟨field, "target_id"⟩ ∧
    g.references ⟨0⟩ name (resolvedOf g ⟨0⟩ name) (g.keyIds ⟨field, "target_id"⟩ ⟨0⟩) = ids

instance (g : Graph MemoryStore) (name field : String) (ids : List String) :
    Decidable (CallsFor g name field ids) :=
  inferInstanceAs (Decidable (_ ∧ _ ∧ _ ∧ _))

theorem unsettled_refersTo : unsettled.RefersTo ⟨0⟩ "writers" ⟨4⟩ := by
  obtain ⟨hok, hside, -⟩ : CallsFor unsettled "writers" "writer" ["lost", "ann"] := by
    decide +kernel
  obtain ⟨hmany, hloaded, hjoined⟩ : (resolvedOf unsettled ⟨0⟩ "writers").holdsSingle = false ∧
      (unsettled.model ⟨0⟩).children.get? (resolvedOf unsettled ⟨0⟩ "writers").name = some ⟨0⟩ ∧
      ⟨4⟩ ∈ (unsettled.collection ⟨0⟩).members.values := by
    decide +kernel
  refine ⟨resolvedOf unsettled ⟨0⟩ "writers", eq_ok_of_isOk hok default, hside, ?_⟩
  rw [Graph.hasLoaded_of_many hmany]
  exact ⟨⟨0⟩, hloaded, hjoined⟩

/-- The editor and the lost writer stay, the first writer is gone, and the new one comes last; as
long as the new one is not stored, nothing is. -/
theorem revised_references :
    (∃ sent stored store, RecordStore.save sent revised.store = (.ok stored, store) ∧
      Returns ((Related.model ⟨0⟩).save none) revised ()
        (Graph.setRecord { revised with store := store } ⟨0⟩ stored) ∧
      sent.referenceIds "edited" "target_id" = ["ann"] ∧
      sent.referenceIds "writer" "target_id" = ["lost", "ann", "eve"]) ∧
    ∃ key name, ((Related.model ⟨0⟩).save none unsettled).1 =
      .error (.unsavedModel key name) := by
  constructor
  · have hreach : Graph.Reachable MemoryStore.Filed revised := .call
      (.call reachable_thinned (.forgeById _ _ _)) (.put (by decide +kernel) (by decide +kernel))
    obtain ⟨hm, hkeys, hresolves, hids, hanswers⟩ : revised.HasModel ⟨0⟩ ∧
        (revised.model ⟨0⟩).modelType.KeepsApart ∧ revised.Resolves ⟨0⟩ ∧
        (∀ d ∈ revised.models.items.toList, d.record.id ≠ some "") ∧
        ((Related.model ⟨0⟩).save none revised).1.isOk = true := by
      decide +kernel
    obtain ⟨hfails, -, hsaves⟩ := save_writes_references MemoryStore.keeps_filed hreach hm hkeys
      hresolves (ids_of_all hids) fun _ => rfl
    obtain ⟨sent, stored, store, hcall, hrun, -, -, -, hsent⟩ := hsaves fun name x hrefers => by
      by_contra hid
      obtain ⟨key, other, herror⟩ := hfails.mpr ⟨name, x, hrefers, by simpa using hid⟩
      rw [herror] at hanswers
      cases hanswers
    have hholds : ∀ name field ids, CallsFor revised name field ids →
        sent.referenceIds field "target_id" = ids := by
      rintro name field ids ⟨hok, hside, hkey, rfl⟩
      have hheld := hsent name (resolvedOf revised ⟨0⟩ name) (eq_ok_of_isOk hok default) hside
      rwa [hkey] at hheld
    exact ⟨sent, stored, store, hcall, hrun, hholds "editor" _ _ (by decide +kernel),
      hholds "writers" _ _ (by decide +kernel)⟩
  · have hreach : Graph.Reachable MemoryStore.Filed unsettled := .call
      (.call reachable_thinned (.forgeNew _ _)) (.put (by decide +kernel) (by decide +kernel))
    obtain ⟨hm, hkeys, hresolves, hids, hnew⟩ : unsettled.HasModel ⟨0⟩ ∧
        (unsettled.model ⟨0⟩).modelType.KeepsApart ∧ unsettled.Resolves ⟨0⟩ ∧
        (∀ d ∈ unsettled.models.items.toList, d.record.id ≠ some "") ∧
        (unsettled.model ⟨4⟩).record.id = none := by
      decide +kernel
    exact (save_writes_references MemoryStore.keeps_filed hreach hm hkeys hresolves
      (ids_of_all hids) fun _ => rfl).1.mpr ⟨"writers", ⟨4⟩, unsettled_refersTo, hnew⟩

end Library

end RecordGraph
