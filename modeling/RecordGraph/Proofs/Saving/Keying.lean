/-
# Keys from putting to saving

Putting a model into a relationship writes the identifier of the model that has no key into the
key of the other one, and loads the former on the latter. When the latter is saved, its keys are
brought in line with what it has loaded; as the relationship with this very key still leads to
the same model, and no other relationship is written to the field, the identifier stays and comes
into the store. This holds from both sides, and for keys of one identifier and of several.
-/
import RecordGraph.Proofs.Connecting.Links
import RecordGraph.Proofs.Fetching.Finding
import RecordGraph.Proofs.Saving.Putting
import RecordGraph.Proofs.Saving.Records
import RecordGraph.Proofs.Upholding.Histories

namespace RecordGraph

variable {σ : Type}

/-- The field that the relationship keeps its foreign key in, if it has one. -/
def Relationship.keyField? (r : Relationship) : Option String :=
  r.foreignKey.toOption.map ForeignKey.field

/-- At most one relationship of the type is written to the field. -/
def ModelType.UsesOnce (t : ModelType) (field : String) : Prop :=
  ∀ one ∈ t.relationships.values, ∀ two ∈ t.relationships.values,
    one.keyField? = some field → two.keyField? = some field → one.name = two.name

instance (t : ModelType) (field : String) : Decidable (t.UsesOnce field) :=
  inferInstanceAs (Decidable (∀ _ ∈ _, ∀ _ ∈ _, _))

/-- The relationship of a type that is written to a field is told by the field. -/
theorem Registry.eq_of_usesOnce {g : Registry} {t : ModelType} {name other : String}
    {r r' : Resolved} (hwf : g.WellFormed) (ht : g.get t.name = .ok t)
    (honce : t.UsesOnce r.foreignKey.field) (hr : g.resolve t.name name = .ok r)
    (hside : r.side = .parent) (hr' : g.resolve t.name other = .ok r') (hside' : r'.side = .parent)
    (hfield : r'.foreignKey.field = r.foreignKey.field) : other = name ∧ r' = r := by
  obtain ⟨u, one, hu, -, hone, honeName, -, hresolveOne⟩ := declared_of_resolve hwf hr
  obtain ⟨v, two, hv, -, htwo, htwoName, -, hresolveTwo⟩ := declared_of_resolve hwf hr'
  obtain rfl := Except.ok.inj (ht.symm.trans hu)
  obtain rfl := Except.ok.inj (ht.symm.trans hv)
  obtain ⟨hkeyOne, -⟩ := resolveRelationship_parent hresolveOne hside
  obtain ⟨hkeyTwo, -⟩ := resolveRelationship_parent hresolveTwo hside'
  have hname := honce one (OrderedMap.mem_values_iff.mpr ⟨_, ModelType.relationship_eq_ok.mp hone⟩)
    two (OrderedMap.mem_values_iff.mpr ⟨_, ModelType.relationship_eq_ok.mp htwo⟩)
    (by simp [Relationship.keyField?, hkeyOne, Except.toOption])
    (by simp [Relationship.keyField?, hkeyTwo, hfield, Except.toOption])
  obtain rfl : other = name := by
    rw [← honeName, ← htwoName, hname]
  exact ⟨rfl, Except.ok.inj (hr'.symm.trans hr)⟩

/-! ## Writing a key -/

namespace Record

variable {record : Record} {k : ForeignKey} {c : Cardinality} {id : String}

theorem refersBy_setReferenceIds (hplain : k.Plain) (hblank : id ≠ "") {ids : List String}
    (hids : c.RefersTo id ids) (record : Record) :
    (record.setReferenceIds k.field k.column ids c).RefersBy k c id where
  refers := by
    rw [referenceIds_setReferenceIds hplain, if_pos rfl]
    cases c with
    | single =>
        rw [show ids = [id] from hids]
        simp [Cardinality.RefersTo, Cardinality.keeps, hblank]
    | multiple => simpa [Cardinality.RefersTo, Cardinality.keeps, hblank] using hids
  texts _ hv := text_of_mem_valuesAt_setReferenceIds hplain hv

namespace RefersBy

theorem setReferenceIds_of_ne (h : record.RefersBy k c id) (hplain : k.Plain) {field : String}
    (hne : field ≠ k.field) (written : String) (ids : List String) (cardinality : Cardinality) :
    (record.setReferenceIds field written ids cardinality).RefersBy k c id where
  refers := by
    rw [referenceIds_setReferenceIds_of_ne hplain hne]
    exact h.refers
  texts := by
    rw [valuesAt_setReferenceIds_of_ne hplain hne]
    exact h.texts

theorem withId (h : record.RefersBy k c id) (hplain : k.Plain) (own : String) :
    (record.withId own).RefersBy k c id where
  refers := by
    rw [referenceIds_withId hplain]
    exact h.refers
  texts := by
    rw [ForeignKey.path, valuesAt_path hplain]
    have htexts := h.texts
    rwa [ForeignKey.path, valuesAt_path hplain] at htexts

end RefersBy

end Record

namespace Graph

/-- Every record stays in its place: it keeps its identifier, its entity type and its bundle. -/
structure KeepsPlaces (g t : Graph σ) : Prop where
  store : t.store = g.store
  registry : t.registry = g.registry
  modelType : ∀ m, (t.model m).modelType = (g.model m).modelType
  id : ∀ m, (t.model m).record.id = (g.model m).record.id
  entityType : ∀ m, (t.model m).record.entityType = (g.model m).record.entityType
  bundle : ∀ m, (t.model m).record.bundle = (g.model m).record.bundle

variable {g t t' : Graph σ} {m x y : Model} {r : Resolved} {name : String}

theorem Relinks.keepsPlaces (h : g.Relinks t) : g.KeepsPlaces t where
  store := h.store
  registry := h.registry
  modelType := h.modelType
  id m := by rw [h.record]
  entityType m := by rw [h.record]
  bundle m := by rw [h.record]

theorem KeepsPlaces.trans (first : g.KeepsPlaces t) (second : t.KeepsPlaces t') :
    g.KeepsPlaces t' where
  store := second.store.trans first.store
  registry := second.registry.trans first.registry
  modelType m := (second.modelType m).trans (first.modelType m)
  id m := (second.id m).trans (first.id m)
  entityType m := (second.entityType m).trans (first.entityType m)
  bundle m := (second.bundle m).trans (first.bundle m)

end Graph

namespace Model

variable {g t t' : Graph σ} {m x y : Model} {r : Resolved} {name id : String}
  {k : ForeignKey} {c : Cardinality}

/-- The identifier comes into the key, and the record stays in its place. -/
theorem exists_setRecord_of_stamp (hplain : k.Plain) (hblank : id ≠ "")
    (h : Returns (m.stamp k (some id) c) t () t') : ∃ record, t' = t.setRecord m record ∧
      record.id = (t.model m).record.id ∧ record.entityType = (t.model m).record.entityType ∧
      record.bundle = (t.model m).record.bundle ∧ record.RefersBy k c id := by
  have hadd : Returns (m.addReferenceId k id c) t () t' := h
  obtain rfl := returns_updateRecord.mp hadd
  refine ⟨_, rfl, by simp, by simp, by simp, Record.refersBy_setReferenceIds hplain hblank ?_ _⟩
  cases c with
  | single => rfl
  | multiple =>
      show id ∈ if _ then _ else _
      split
      · rename_i hheld
        simpa using hheld
      · simp

end Model

namespace Graph

variable {g t t' : Graph σ} {m x y : Model} {r : Resolved} {name : String} {record : Record}

theorem KeepsPlaces.setRecord (hid : record.id = (g.model m).record.id)
    (hentity : record.entityType = (g.model m).record.entityType)
    (hbundle : record.bundle = (g.model m).record.bundle) :
    g.KeepsPlaces (g.setRecord m record) := by
  have hplace : ∀ n, ((g.setRecord m record).model n).record.id = (g.model n).record.id ∧
      ((g.setRecord m record).model n).record.entityType = (g.model n).record.entityType ∧
      ((g.setRecord m record).model n).record.bundle = (g.model n).record.bundle := by
    intro n
    rw [model_setRecord]
    split
    · rename_i hsame
      exact ⟨hsame ▸ hid, hsame ▸ hentity, hsame ▸ hbundle⟩
    · exact ⟨rfl, rfl, rfl⟩
  exact ⟨rfl, rfl, fun n => by rw [model_setRecord], fun n => (hplace n).1,
    fun n => (hplace n).2.1, fun n => (hplace n).2.2⟩

@[simp] theorem hasLoaded_setRecord : (g.setRecord m record).HasLoaded x r y ↔ g.HasLoaded x r y := by
  simp only [HasLoaded, model_setRecord, collection_setRecord]

end Graph

/-! ## Loading -/

namespace Model

variable {g g' t t' : Graph σ} {m x y : Model} {r : Resolved} {name : String} {c : Collection}

theorem relinks_of_put_childrenOr (h : Returns (do (← x.childrenOr name r).put y) g () g') :
    g.Relinks g' := by
  obtain ⟨c, opened, hslot, hput⟩ := returns_bind.mp h
  obtain ⟨membership, rfl⟩ := Collection.returns_put hput
  exact (relinks_of_childrenOr hslot).trans (.setCollection opened c _)

/-- A model that is put into the collection of a relationship is among its members. -/
theorem hasLoaded_of_put_childrenOr {own : Resolved} (hmany : r.holdsSingle = false)
    (h : Returns (do (← x.childrenOr r.name own).put y) g () g') : g'.HasLoaded x r y := by
  obtain ⟨c, opened, hslot, hput⟩ := returns_bind.mp h
  have hopens := opens_of_childrenOr hslot
  obtain ⟨membership, rfl⟩ := Collection.returns_put hput
  refine (Graph.hasLoaded_of_many hmany).mpr
    ⟨c, hopens.loaded, OrderedMap.mem_values_iff.mpr ⟨(opened.model y).key, ?_⟩⟩
  simp

/-- A model that is received is loaded. -/
theorem hasLoaded_of_receive (h : Returns (x.receive r.holdsSingle r.name y) g () g') :
    g.Relinks g' ∧ g'.HasLoaded x r y := by
  unfold receive at h
  cases hsingle : r.holdsSingle with
  | true =>
      rw [hsingle, if_pos rfl] at h
      obtain rfl := returns_setParent.mp h
      refine ⟨.setModel g x _ _, (Graph.hasLoaded_of_single hsingle).mpr ?_⟩
      simp [Graph.model_setModel]
  | false =>
      rw [hsingle, if_neg (by simp)] at h
      obtain ⟨c, opened, hslot, hput⟩ := returns_bind.mp h
      obtain ⟨own, hor⟩ := exists_childrenOr_of_children hslot
      have hfill : Returns (do (← x.childrenOr r.name own).put y) g () g' :=
        returns_bind.mpr ⟨c, opened, hor, hput⟩
      exact ⟨relinks_of_put_childrenOr hfill, hasLoaded_of_put_childrenOr hsingle hfill⟩

/-- What a model holds by its key stays loaded while the other one loads the way back. -/
theorem hasLoaded_of_receiveBack {inverse : Option String} (horderly : t'.Orderly)
    (hloaded : t.HasLoaded m r x) (h : Returns (x.receiveBack false inverse m) t () t') :
    t.Relinks t' ∧ t'.HasLoaded m r x := by
  cases inverse with
  | none =>
      obtain rfl := (returns_pure.mp h).1
      exact ⟨.refl _, hloaded⟩
  | some back =>
      obtain ⟨c, opened, hslot, hput⟩ := returns_bind.mp h
      obtain ⟨own, hor⟩ := exists_childrenOr_of_children hslot
      have hopens := opens_of_childrenOr hor
      have hrelinks := relinks_of_childrenOr hor
      obtain ⟨membership, rfl⟩ := Collection.returns_put hput
      refine ⟨hrelinks.trans (.setCollection opened c _), ?_⟩
      cases hsingle : r.holdsSingle with
      | true =>
          rw [Graph.hasLoaded_of_single hsingle] at hloaded ⊢
          rw [Graph.model_setCollection, hopens.model m]
          exact hloaded
      | false =>
          obtain ⟨d, hd, hx⟩ := (Graph.hasLoaded_of_many hsingle).mp hloaded
          have hkept : (opened.model m).children.get? r.name = some d := by
            by_cases hslot : m = x ∧ r.name = back
            · obtain ⟨rfl, hname⟩ := hslot
              rcases hopens.slot with hold | ⟨hnone, -⟩
              · rw [hname, hopens.loaded, ← hold, ← hname, hd]
              · rw [← hname, hd] at hnone
                cases hnone
            · rw [hopens.children m r.name (not_and_or.mp hslot), hd]
          refine (Graph.hasLoaded_of_many hsingle).mpr ⟨d, hkept, ?_⟩
          rw [Graph.collection_setCollection]
          split
          · -- one collection in two places is one place, and the model came there before
            rename_i hsame
            obtain ⟨rfl, -⟩ := horderly.apart m x r.name back d hkept (hsame ▸ hopens.loaded)
            exact OrderedMap.mem_values_iff.mpr ⟨(opened.model m).key, by simp⟩
          · rename_i hother
            rw [hopens.collection d (Ne.symm hother)]
            exact hx

end Model

/-! ## Putting -/

namespace Graph

/-- The model has the other one loaded, and refers to it by its key; otherwise records are as they
were. -/
structure Keyed (g t : Graph σ) (m : Model) (r : Resolved) (x : Model) (id : String) : Prop where
  places : g.KeepsPlaces t
  loaded : t.HasLoaded m r x
  refers : (t.model m).record.RefersBy r.foreignKey r.cardinality id

end Graph

namespace Model

variable {g g' : Graph σ} {m far : Model} {r back : Resolved} {name inverse id : String}

/-- The model that is put into a relationship with the key is loaded there and referred to. -/
theorem keyed_of_putParent {inverse : Option String} (hplain : r.foreignKey.Plain)
    (hid : (g.model far).record.id = some id) (hblank : id ≠ "") (horderly : g'.Orderly)
    (h : Returns (m.putParent r r.name inverse far) g () g') :
    g.Keyed g' m r far id := by
  obtain ⟨loaded, stamped, hload, hstamp, hback⟩ := putParent_steps h
  obtain ⟨hrelinks, hloaded⟩ : g.Relinks loaded ∧ loaded.HasLoaded m r far := by
    cases hsingle : r.holdsSingle with
    | true =>
        refine hasLoaded_of_receive ?_
        rw [hsingle, if_pos rfl] at hload
        rw [receive, hsingle, if_pos rfl]
        exact hload
    | false =>
        rw [hsingle, if_neg (by simp)] at hload
        exact ⟨relinks_of_put_childrenOr hload, hasLoaded_of_put_childrenOr hsingle hload⟩
  rw [hrelinks.record, hid] at hstamp
  obtain ⟨record, rfl, hown, hentity, hbundle, hrefers⟩ :=
    exists_setRecord_of_stamp hplain hblank hstamp
  obtain ⟨hlast, hkept⟩ :=
    hasLoaded_of_receiveBack horderly (Graph.hasLoaded_setRecord.mpr hloaded) hback
  refine ⟨(hrelinks.keepsPlaces.trans (.setRecord hown hentity hbundle)).trans hlast.keepsPlaces,
    hkept, ?_⟩
  rw [hlast.record, Graph.model_setRecord, if_pos rfl]
  exact hrefers

/-- The model that something is put into a relationship of, without the key, is loaded on the way
back and referred to. -/
theorem keyed_of_putChild (hname : back.name = inverse)
    (hholds : back.holdsSingle = decide (r.cardinality = .single))
    (hkey : back.foreignKey = r.foreignKey) (hcardinality : back.cardinality = r.cardinality)
    (hplain : r.foreignKey.Plain) (hid : (g.model m).record.id = some id) (hblank : id ≠ "")
    (h : Returns (m.putChild r name (some inverse) far) g () g') : g.Keyed g' far back m id := by
  obtain ⟨loaded, linked, hload, hback, hstamp⟩ := putChild_steps h
  have hrelinks := relinks_of_put_childrenOr hload
  obtain ⟨hlinked, hloaded⟩ := hasLoaded_of_receive (r := back) (by
    rw [hname, hholds]
    exact hback)
  rw [hlinked.record, hrelinks.record, hid] at hstamp
  obtain ⟨record, rfl, hown, hentity, hbundle, hrefers⟩ :=
    exists_setRecord_of_stamp hplain hblank hstamp
  refine ⟨(hrelinks.trans hlinked).keepsPlaces.trans (.setRecord hown hentity hbundle),
    Graph.hasLoaded_setRecord.mpr hloaded, ?_⟩
  rw [Graph.model_setRecord, if_pos rfl, hkey, hcardinality]
  exact hrefers

end Model

/-! ## The way back -/

namespace Model

variable {g g' t t' : Graph σ} {m far x y : Model} {r : Resolved} {name inverse : String}

theorem exists_children_of_receiveBack
    (h : Returns (x.receiveBack false (some inverse) y) t () t') :
    ∃ c, (t'.model x).children.get? inverse = some c := by
  obtain ⟨c, opened, hslot, hput⟩ := returns_bind.mp h
  obtain ⟨own, hor⟩ := exists_childrenOr_of_children hslot
  obtain ⟨membership, rfl⟩ := Collection.returns_put hput
  exact ⟨c, (opens_of_childrenOr hor).loaded⟩

/-- The model without the key has a collection for the way back. -/
theorem exists_children_of_putParent
    (h : Returns (m.putParent r name (some inverse) far) g () g') :
    ∃ c, (g'.model far).children.get? inverse = some c := by
  obtain ⟨loaded, stamped, -, -, hback⟩ := putParent_steps h
  exact exists_children_of_receiveBack hback

/-- The model with the key has the way back loaded. -/
theorem loaded_of_putChild (h : Returns (m.putChild r name (some inverse) far) g () g') :
    (r.cardinality = .single ∧ (g'.model far).parents.get? inverse = some m) ∨
      ∃ c, (g'.model far).children.get? inverse = some c := by
  obtain ⟨filled, linked, -, hback, hstamp⟩ := putChild_steps h
  have hsame : (g'.model far).parents = (linked.model far).parents ∧
      (g'.model far).children = (linked.model far).children := by
    cases hid : (linked.model m).record.id with
    | none =>
        rw [hid] at hstamp
        rw [(returns_pure.mp hstamp).1]
        exact ⟨rfl, rfl⟩
    | some id =>
        rw [hid] at hstamp
        have hadd : Returns (far.addReferenceId r.foreignKey id r.cardinality) linked () g' :=
          hstamp
        rw [returns_updateRecord.mp hadd, Graph.model_setRecord]
        exact ⟨rfl, rfl⟩
  rw [hsame.1, hsame.2]
  cases hcardinality : r.cardinality with
  | single =>
      rw [hcardinality] at hback
      have hset : Returns (far.setParent inverse m) filled () linked := hback
      rw [returns_setParent.mp hset, Graph.model_setModel, if_pos rfl]
      exact .inl ⟨rfl, by simp⟩
  | multiple =>
      rw [hcardinality] at hback
      exact .inr (exists_children_of_receiveBack hback)

end Model

/-! ## Saving -/

namespace Model

section Writing

variable {g : Graph σ} {m x : Model} {r r' : Resolved} {name other id : String}
  {held ids : List String} {record : Record}

/-- A key that refers to the model that is loaded by it goes on to do so when a key is written
anew: another key is in another field, and this one is written from what is loaded. -/
theorem refersBy_writeKey (hg : g.WellFormed) (hm : g.HasModel m) (horderly : g.Orderly)
    (hresolve : g.registry.resolve (g.model m).modelType.name name = .ok r)
    (hside : r.side = .parent) (hplain : r.foreignKey.Plain)
    (honce : (g.model m).modelType.UsesOnce r.foreignKey.field) (hloaded : g.HasLoaded m r x)
    (hid : (g.model x).record.id = some id) (hblank : id ≠ "")
    (hresolve' : g.registry.resolve (g.model m).modelType.name other = .ok r')
    (hpoints : g.PointsAt m other r' held ids)
    (hrecord : record.RefersBy r.foreignKey r.cardinality id) :
    (r'.writeKey ids record).RefersBy r.foreignKey r.cardinality id := by
  by_cases hfield : r'.foreignKey.field = r.foreignKey.field
  · have hside' : r'.side = .parent := by
      cases hpoints with
      | parent _ hparent _ => exact horderly.side_of_parent hg hm hparent hresolve'
      | children _ hside' _ _ => exact hside'
    obtain ⟨rfl, rfl⟩ := Registry.eq_of_usesOnce hg.registry (hg.typed m hm) honce hresolve hside
      hresolve' hside' hfield
    have hname := Registry.name_of_resolve hg.registry hresolve
    refine Record.refersBy_setReferenceIds hplain hblank ?_ record
    cases hpoints with
    | @parent p own hsingle hparent hown =>
        have hx := (Graph.hasLoaded_of_single
          (by rw [Resolved.holdsSingle_of_parent hside, hsingle]; rfl)).mp hloaded
        rw [hname, hparent, Option.some.injEq] at hx
        rw [hx, hid, Option.some.injEq] at hown
        rw [hsingle, ← hown]
        rfl
    | @children c hmultiple _ hchildren _ =>
        obtain ⟨d, hd, hx⟩ := (Graph.hasLoaded_of_many
          (by rw [Resolved.holdsSingle_of_parent hside, hmultiple]; rfl)).mp hloaded
        rw [hname, hchildren, Option.some.injEq] at hd
        rw [hmultiple]
        exact mem_joinIds.mpr (.inr (Graph.mem_memberIds.mpr ⟨x, hd ▸ hx, hid⟩))
  · exact hrecord.setReferenceIds_of_ne hplain hfield _ _ _

end Writing

variable {g g' : Graph MemoryStore} {m x p : Model} {r : Resolved} {name id : String}

/-- A saved model is stored with the key that it has, if the key refers to the model that is
loaded by it. -/
theorem refersBy_of_saveRecord (hg : g.WellFormed) (hm : g.HasModel m) (horderly : g.Orderly)
    (hresolve : g.registry.resolve (g.model m).modelType.name name = .ok r)
    (hside : r.side = .parent) (hplain : r.foreignKey.Plain)
    (honce : (g.model m).modelType.UsesOnce r.foreignKey.field) (hloaded : g.HasLoaded m r x)
    (hid : (g.model x).record.id = some id) (hblank : id ≠ "")
    (hrefers : (g.model m).record.RefersBy r.foreignKey r.cardinality id)
    (h : Returns m.saveRecord g () g') : g.OnlyStores g' ∧ g.Writes g' m ∧
      (g'.model m).record.bundle = (g.model m).record.bundle ∧
      (g'.model m).record.RefersBy r.foreignKey r.cardinality id := by
  obtain ⟨hstores, hwrites, record, own, ⟨hbundle, hrecord⟩, hsame⟩ :=
    returns_saveRecord_of hg hm h (fun record => record.bundle = (g.model m).record.bundle ∧
      record.RefersBy r.foreignKey r.cardinality id) ⟨rfl, hrefers⟩ (by
    rintro other r' record ids hresolve' hpoints ⟨hbundle, hrecord⟩
    refine ⟨by simpa [Resolved.writeKey] using hbundle, ?_⟩
    exact refersBy_writeKey hg hm horderly hresolve hside hplain honce hloaded hid hblank hresolve'
      hpoints hrecord)
  refine ⟨hstores, hwrites, ?_, ?_⟩
  · rw [hsame]
    exact hbundle
  · rw [hsame]
    exact hrecord.withId hplain own

/-- The relationships whose parents are loaded on a model that was saved resolve. -/
theorem exists_resolve_of_saveRecord (hg : g.WellFormed) (hm : g.HasModel m)
    (hloaded : (g.model m).parents.get? name = some p) (h : Returns m.saveRecord g () g') :
    ∃ r, g.registry.resolve (g.model m).modelType.name name = .ok r := by
  simp only [saveRecord, syncForeignKeys, returns_bind, returns_data, and_assoc,
    exists_eq_left] at h
  obtain ⟨⟨⟩, synced, ⟨⟨⟩, between, hparents, -⟩, -⟩ := h
  have hkey : name ∈ (g.model m).parents.keys := by
    rw [← OrderedMap.contains_iff_mem_keys, OrderedMap.contains, hloaded, Option.isSome_some]
  have hturns := hparents.forM_invariant (fun done t => (∃ record, t = g.setRecord m record) ∧
    ∀ other ∈ done, ∃ r, g.registry.resolve (g.model m).modelType.name other = .ok r)
    ⟨⟨_, (Graph.setRecord_self hm).symm⟩, by simp⟩ ?_
  · exact hturns.2 name hkey
  · rintro done other rest t t' - ⟨⟨record, rfl⟩, hdone⟩ hsync
    obtain ⟨r, written, hresolve, rfl, -⟩ := returns_syncForeignKey
      (g := g.setRecord m record) hg.registry (by simpa using hg.typed m hm) (hm.setRecord m record)
      hsync
    refine ⟨⟨written, Graph.setRecord_setRecord g m record written⟩, fun z hz => ?_⟩
    rcases List.mem_append.mp hz with hz | hz
    · exact hdone z hz
    · rw [List.mem_singleton.mp hz]
      exact ⟨r, by simpa using hresolve⟩

end Model

end RecordGraph
