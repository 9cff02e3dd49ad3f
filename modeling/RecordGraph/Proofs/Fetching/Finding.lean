/-
# Finding stored models again

A record whose foreign key refers to a stored record leads to it when it is forged anew: the
relationship is fetched for the fresh model, and what is read then is, or has among its members,
a model of the stored record. The same is so from the other side, where it is the stored record
whose key refers to the fresh model. Nothing that was loaded before plays a part in this, and
nothing in the graph but its registry and its stored records.

A single key fetches one record. A key for several identifiers fetches every record that it
refers to, and none of them if one cannot be told the way back.
-/
import RecordGraph.Proofs.Fetching.Children
import RecordGraph.Proofs.Fetching.Succeeding
import RecordGraph.Proofs.Saving.Children

namespace RecordGraph

/-! ## Records of a type -/

namespace Condition

theorem holds_eq_bundle (r : Record) : (eq bundleField (.text r.bundle)).holds r = true := by
  rw [holds_eq_bundleField, Value.looselyEqual_self_text]

theorem holds_inList_bundle {r : Record} {values : List Value} (h : .text r.bundle ∈ values) :
    (inList bundleField values).holds r = true := by
  rw [holds_inList_bundleField, List.any_eq_true]
  exact ⟨_, h, Value.looselyEqual_self_text r.bundle⟩

end Condition

namespace Registry

variable {g : Registry} {declared : Relationship} {q : ModelQuery}

/-- The query for far models selects the records of the bundle of every far type, and makes
models of this type of them. -/
theorem Checked.yields_of_bundle (hchecked : g.Checked) (hg : g.WellFormed)
    (hq : g.relationshipQuery declared = .ok q) {far : ModelType} (hfar : far ∈ q.wrapping.types)
    {r : Record} (hr : r.bundle = far.bundle) :
    ∃ c, q.query = Query.ofBase far.entityType [c] ∧ c.holds r = true ∧
      q.wrapping.typeFor? r = some far := by
  have hregistered := registered_relationshipQuery hg hq
  simp only [relationshipQuery, except_bind_eq_ok] at hq
  obtain ⟨_, -, types, -, hq⟩ := hq
  split at hq
  · rw [except_pure_eq_ok] at hq
    subst hq
    rw [List.mem_singleton.mp hfar] at hr ⊢
    exact ⟨_, rfl, hr ▸ Condition.holds_eq_bundle r, rfl⟩
  · unfold ModelQuery.ofTypes at hq
    split at hq
    · cases hq
    · rename_i first rest _
      split at hq
      · cases hq
      · rename_i hsame
        obtain rfl := Except.ok.inj hq
        have hentity : ∀ u ∈ first :: rest, u.entityType = first.entityType := by
          simpa using hsame
        refine ⟨Condition.inList bundleField ((first :: rest).map fun u => .text u.bundle), ?_,
          Condition.holds_inList_bundle (List.mem_map.mpr ⟨far, hfar, by rw [hr]⟩), ?_⟩
        · rw [hentity far hfar]
          rfl
        · obtain ⟨u, hu⟩ : ∃ u, (first :: rest).find? (fun u => u.bundle = r.bundle) = some u := by
            rw [← Option.isSome_iff_exists, List.find?_isSome]
            exact ⟨far, hfar, by simp [hr]⟩
          have hmem := List.mem_of_find?_eq_some hu
          have hbundle := List.find?_some hu
          rw [decide_eq_true_eq, hr] at hbundle
          rw [Wrapping.typeFor?, hu, hchecked.bundles u (mem_values_of_get (hregistered u hmem)) far
            (mem_values_of_get (hregistered far hfar))
            ((hentity u hmem).trans (hentity far hfar).symm) hbundle]

/-- A relationship of a registered type, and one of the types that it leads to. -/
structure Leads (g : Registry) (near : ModelType) (name : String) (r : Resolved)
    (far : ModelType) : Prop where
  registered : g.get near.name = .ok near
  registeredFar : g.get far.name = .ok far
  resolves : g.resolve near.name name = .ok r
  leads : far.name ∈ r.farTypes

/-- From the side without the foreign key there is a way back from the one far type. -/
theorem mem_farTypes_of_inverseOn {typeName name other inverse : String} {r : Resolved}
    (hwf : g.WellFormed) (hresolve : g.resolve typeName name = .ok r) (hside : r.side = .child)
    (hinverse : r.inverseOn? other = some inverse) : r.farTypes = [other] := by
  obtain ⟨t, declared, -, -, -, -, -, h⟩ := declared_of_resolve hwf hresolve
  obtain ⟨far, back, -, -, -, -, -, -, -, hfars, hinverses⟩ := resolveRelationship_child h hside
  rw [Resolved.inverseOn?, hinverses, OrderedMap.get?_insert, OrderedMap.get?_empty] at hinverse
  split at hinverse
  · rename_i hfar
    rw [hfars, hfar]
  · cases hinverse

/-- From the side without the foreign key there is a way back from every far type. -/
theorem exists_inverseOn_of_child {typeName name far : String} {r : Resolved}
    (hwf : g.WellFormed) (hresolve : g.resolve typeName name = .ok r) (hside : r.side = .child)
    (hleads : far ∈ r.farTypes) : ∃ inverse, r.inverseOn? far = some inverse := by
  obtain ⟨t, declared, -, -, -, -, -, h⟩ := declared_of_resolve hwf hresolve
  obtain ⟨other, inverse, -, -, -, -, -, -, -, hfars, hinverses⟩ :=
    resolveRelationship_child h hside
  rw [hfars, List.mem_singleton] at hleads
  exact ⟨inverse, by simp [Resolved.inverseOn?, hinverses, hleads]⟩

end Registry

/-! ## What is loaded -/

section Loaded

variable {σ : Type}

/-- The relationship of the model is loaded, and leads to the other model. -/
def Graph.HasLoaded (g : Graph σ) (m : Model) (r : Resolved) (x : Model) : Prop :=
  match r.holdsSingle with
  | true => (g.model m).parents.get? r.name = some x
  | false => ∃ c, (g.model m).children.get? r.name = some c ∧ x ∈ (g.collection c).members.values

variable {g : Graph σ} {m x : Model} {r : Resolved}

theorem Graph.hasLoaded_of_single (hsingle : r.holdsSingle = true) :
    g.HasLoaded m r x ↔ (g.model m).parents.get? r.name = some x := by
  rw [HasLoaded, hsingle]

theorem Graph.hasLoaded_of_many (hmany : r.holdsSingle = false) : g.HasLoaded m r x ↔
    ∃ c, (g.model m).children.get? r.name = some c ∧ x ∈ (g.collection c).members.values := by
  rw [HasLoaded, hmany]

/-- Reading a loaded relationship changes nothing. -/
theorem Graph.HasLoaded.exists_read (h : g.HasLoaded m r x)
    (hresolve : g.registry.resolve (g.model m).modelType.name r.name = .ok r) :
    ∃ related, Returns (m.read r.name) g related g ∧ related.Holds g x := by
  cases hsingle : r.holdsSingle with
  | true =>
      rw [hasLoaded_of_single hsingle] at h
      have hread := Model.read_parent hresolve hsingle
      rw [h] at hread
      exact ⟨.model x, hread, rfl⟩
  | false =>
      obtain ⟨c, hloaded, hx⟩ := (hasLoaded_of_many hsingle).mp h
      exact ⟨.collection c, Model.read_loaded hresolve hsingle hloaded, hx⟩

end Loaded

/-! ## What is fetched for a fresh model -/

/-- A record of the type is stored under the identifier. -/
def Graph.Stores (g : Graph MemoryStore) (t : ModelType) (id : String) (record : Record) : Prop :=
  g.stored t.entityType id = some record ∧ record.bundle = t.bundle

theorem Graph.exists_stores_iff {g : Graph MemoryStore} {t : ModelType} {id : String} :
    (∃ record, g.Stores t id record) ↔
      (g.stored t.entityType id).map Record.bundle = some t.bundle := by
  simp [Stores]

/-- Whichever far records are stored under the identifiers, the way back resolves from their
types, if there is one. -/
def Graph.TellsBack (g : Graph MemoryStore) (r : Resolved) (ids : List String) : Prop :=
  ∀ (far : ModelType) (id : String) (record : Record), far.name ∈ r.farTypes →
    g.registry.get far.name = .ok far → id ∈ ids → g.Stores far id record →
      ∀ inverse, r.inverseOn? far.name = some inverse →
        ∃ back, g.registry.resolve far.name inverse = .ok back

/-- The foreign key is written in texts, and refers to the identifier. -/
structure Record.RefersBy (record : Record) (k : ForeignKey) (c : Cardinality) (id : String) :
    Prop where
  refers : c.RefersTo id (record.referenceIds k.field k.column)
  texts : ∀ v ∈ record.valuesAt k.path, v.IsText

namespace Fetching

open RecordGraph.Graph

variable {g : Graph MemoryStore} {s : Session} {m : Model} {name id : String} {r : Resolved}
  {far : ModelType} {record : Record}

/-- What the plan of a relationship makes of the records of a far type. -/
theorem Planned.yields_of_bundle {registry : Registry} {t : ModelType} {plan : Plan}
    (hchecked : registry.Checked) (hwf : registry.WellFormed)
    (hplan : Planned registry s t name none plan) (ht : registry.get t.name = .ok t)
    (hfar : registry.get far.name = .ok far) (hleads : far.name ∈ plan.resolved.farTypes)
    (hbundle : record.bundle = far.bundle) :
    ∃ c, plan.query.query = Query.ofBase far.entityType [c] ∧ c.holds record = true ∧
      plan.query.wrapping.typeFor? record = some far := by
  obtain ⟨relationship, q, hrelationship, hq, -, hquery⟩ := hplan.declared
  obtain rfl : plan.query = q := hquery
  have hresolves := hplan.resolve_declared hwf ht hrelationship
  exact hchecked.yields_of_bundle hwf hq
    (Registry.mem_types_of_mem_farTypes hresolves hq hfar hleads) hbundle

/-- Where whatever the key refers to can be told the way back, so can what the plan makes models
of. -/
theorem Planned.resolves_of_tellsBack {t : ModelType} {plan : Plan} {ids : List String}
    (hchecked : g.registry.Checked) (hlinks : g.registry.Leads t name plan.resolved far)
    (hwf : g.registry.WellFormed) (hplan : Planned g.registry s t name none plan)
    (hstored : g.Stores far id record) (hid : id ∈ ids) (htells : g.TellsBack plan.resolved ids) :
    ∀ other ∈ ids, ∀ q u, g.stored plan.query.query.entityType other = some q →
      plan.query.wrapping.typeFor? q = some u → ∀ inverse,
        plan.resolved.inverseOn? u.name = some inverse →
          ∃ back, g.registry.resolve u.name inverse = .ok back := by
  intro other hother q u hq hu
  obtain ⟨relationship, asked, hrelationship, hasked, -, hquery⟩ := hplan.declared
  obtain rfl : plan.query = asked := hquery
  have hresolves := hplan.resolve_declared hwf hlinks.registered hrelationship
  have hmem := Wrapping.mem_types_of_typeFor hu
  have hregistered := Registry.registered_relationshipQuery hwf hasked u hmem
  have hleads := Registry.mem_farTypes_of_mem_types hwf hresolves hasked hmem
  obtain ⟨c, hbase, -⟩ :=
    hchecked.yields_of_bundle hwf hasked hmem (r := Record.new "" u.bundle) rfl
  have hentity : plan.query.query.entityType = u.entityType := by
    rw [hbase]
    rfl
  rw [hentity] at hq
  cases hwrapping : plan.query.wrapping with
  | one only =>
      have hfar := Registry.mem_types_of_mem_farTypes hresolves hasked hlinks.registeredFar
        hlinks.leads
      rw [hwrapping] at hmem hfar
      rw [List.mem_singleton.mp hmem, ← List.mem_singleton.mp hfar]
      exact htells far id record hlinks.leads hlinks.registeredFar hid hstored
  | several ts =>
      rw [hwrapping] at hu
      have hbundle := List.find?_some hu
      rw [decide_eq_true_eq] at hbundle
      exact htells u other q hleads hregistered hother ⟨hq, hbundle.symm⟩

/-- What is found under an identifier that the key of a fresh model refers to is loaded. -/
theorem Loading.hasLoaded_of_found {plan : Plan} {unloaded ran g' : Graph MemoryStore}
    {answers : List Record} {found : OrderedMap String Model} {x : Model}
    (hloading : Loading plan [m] g unloaded ran g' answers found (parentPairs plan g found [m]))
    (hfresh : g.Fresh s m) (hside : plan.resolved.side = .parent)
    (hrefers : plan.resolved.cardinality.RefersTo id (g.keyIds plan.resolved.foreignKey m))
    (hfound : found.get? id = some x) : g'.HasLoaded m plan.resolved x := by
  cases hcardinality : plan.resolved.cardinality with
  | single =>
      rw [hcardinality] at hrefers
      have hids : g.keyIds plan.resolved.foreignKey m = [id] := hrefers
      rw [hasLoaded_of_single (by rw [Resolved.holdsSingle_of_parent hside, hcardinality]; rfl),
        hloading.parents_of_parentPairs hside hcardinality (List.nodup_singleton m)
          (List.mem_singleton_self m) (by simp [hids]), hids]
      exact hfound
  | multiple =>
      have hmany : plan.resolved.holdsSingle = false := by
        rw [Resolved.holdsSingle_of_parent hside, hcardinality]
        rfl
      obtain ⟨c, hloaded, hvalues, -⟩ := hloading.values_near (List.mem_singleton_self m) hmany
        (by simp [unsavedChildren, hfresh.children])
        (by simp [unsavedChildren, hfresh.children])
      refine (hasLoaded_of_many hmany).mpr ⟨c, hloaded, ?_⟩
      rw [hvalues, List.mem_append, mem_distinct, mem_map_snd_filter, mem_parentPairs]
      exact .inr ⟨List.mem_singleton_self m, id, hrefers.mem, hfound⟩

/-- A stored record of a far type that the key of a fresh model refers to is fetched, unless a
far model that comes with it cannot be told the way back. -/
theorem exists_fetched_parent (hg : g.WellFormed) (hfiled : g.store.Filed)
    (hchecked : g.registry.Checked) (hfresh : g.Fresh s m)
    (hlinks : g.registry.Leads (g.model m).modelType name r far) (hside : r.side = .parent)
    (hstored : g.Stores far id record)
    (hrefers : r.cardinality.RefersTo id (g.keyIds r.foreignKey m))
    (hback : g.TellsBack r (g.keyIds r.foreignKey m)) :
    ∃ g', Returns (fetchRelationship s [m] name none) g () g' ∧ g.Spares g' [m] ∧
      ∃ x, g'.HasLoaded m r x ∧ (g'.model x).record = record := by
  obtain ⟨⟨⟩, g', hfetch⟩ : Succeeds (fetchRelationship s [m] name none) g := by
    refine succeeds_fetchRelationship hlinks.registered rfl (succeeds_fetchGroup hg hchecked
      hlinks.registered hlinks.resolves (List.ne_nil_of_mem hlinks.leads)
      fun plan hplan hresolved => ⟨fun _ => ?_, fun hchild => ?_⟩)
    · subst hresolved
      exact succeeds_parentSide hg hfiled hchecked hplan hside hlinks.registered hfresh rfl
        (List.ne_nil_of_mem hlinks.leads)
        (hplan.resolves_of_tellsBack hchecked hlinks hg.registry hstored hrefers.mem hback)
    · rw [hside] at hchild
      cases hchild
  obtain ⟨ht, hfar, hresolve, hleads⟩ := hlinks
  obtain ⟨hstored, hbundle⟩ := hstored
  refine ⟨g', hfetch, ?_⟩
  obtain ⟨t, plan, -, ht', htyped, hplan, rfl, hparent, -⟩ := exists_planned_of_one_type hg
    (by simp) (by simpa using hfresh.made) (by simp) hresolve hfetch
  obtain ⟨entityType, c, unloaded, ran, answers, found, hbase, hloading, hanswered⟩ :=
    hplan.returns_parentSide hg hfiled hside ht' htyped (List.nodup_singleton m)
      (by simpa using hfresh.made) (hparent hside)
  have hkeeps : plan.keeps g m = false := by
    simp [Plan.keeps, hfresh.parents]
  have hmembers : [m].filter (fun x => !plan.keeps g x) = [m] := by
    simp [hkeeps]
  rw [hmembers] at hloading hanswered
  obtain ⟨d, hbase', hmeets, htype⟩ :=
    hplan.yields_of_bundle hchecked hg.registry ht' hfar hleads hbundle
  obtain ⟨rfl, rfl⟩ : entityType = far.entityType ∧ c = d := by
    rw [hbase] at hbase'
    simpa [Query.ofBase, Query.new, eq_comm] using hbase'
  have hown : record.id = some id := (hfiled far.entityType id record hstored).1
  have hasked : id ∈ distinct ([m].map (g.keyIds plan.resolved.foreignKey)).flatten := by
    simpa [mem_distinct] using hrefers.mem
  have hanswer : record ∈ answers := hanswered.mem_of_asked
    (OrderedMap.mem_values_iff.mpr ⟨id, hstored⟩) (by simpa using hmeets) hasked
    (by simp [Record.valuesAt, hown])
  obtain ⟨x, hx, hrecord⟩ := (hloading.found_iff hfiled hanswered).mpr
    ⟨hanswer, by rw [htype, Option.isSome_some]⟩
  obtain ⟨hfound, hkey⟩ := hloading.finds.get?_key hx
  rw [hrecord, hown, Option.some.injEq] at hkey
  rw [← hkey] at hfound
  exact ⟨hloading.spares, x, hloading.hasLoaded_of_found hfresh hside hrefers hfound,
    by rw [hloading.handed.relinks.record, hrecord]⟩

/-- A stored record of the far type whose key, a text, refers to a fresh model is fetched. -/
theorem exists_fetched_child {own : String} (hg : g.WellFormed) (hfiled : g.store.Filed)
    (hchecked : g.registry.Checked) (hfresh : g.Fresh s m)
    (hlinks : g.registry.Leads (g.model m).modelType name r far) (hside : r.side = .child)
    (hstored : g.Stores far id record) (hown : (g.model m).record.id = some own)
    (hrefers : record.RefersBy r.foreignKey r.cardinality own)
    (hback : r.cardinality = .multiple → ∀ inverse, r.inverseOn? far.name = some inverse →
      ∃ back, g.registry.resolve far.name inverse = .ok back) :
    ∃ g', Returns (fetchRelationship s [m] name none) g () g' ∧ g.Spares g' [m] ∧
      ∃ x, g'.HasLoaded m r x ∧ (g'.model x).record = record := by
  obtain ⟨ht, hfar, hresolve, hleads⟩ := hlinks
  obtain ⟨hstored, hbundle⟩ := hstored
  obtain ⟨⟨⟩, g', hfetch⟩ : Succeeds (fetchRelationship s [m] name none) g := by
    refine succeeds_fetchRelationship ht rfl (succeeds_fetchGroup hg hchecked ht hresolve
      (List.ne_nil_of_mem hleads) fun plan hplan hresolved => ⟨fun hparent => ?_, fun _ => ?_⟩)
    · rw [hside] at hparent
      cases hparent
    · subst hresolved
      refine succeeds_childSide hg hfiled hchecked hplan hside ht hfresh rfl ?_
      intro hmultiple other inverse hinverse
      rw [Registry.mem_farTypes_of_inverseOn hg.registry hresolve hside hinverse,
        List.mem_singleton] at hleads
      exact hleads ▸ hback hmultiple inverse (hleads ▸ hinverse)
  refine ⟨g', hfetch, ?_⟩
  obtain ⟨t, plan, -, ht', -, hplan, rfl, -, hchild⟩ := exists_planned_of_one_type hg
    (by simp) (by simpa using hfresh.made) (by simp) hresolve hfetch
  obtain ⟨queried, unloaded, ran, answers, found, owners, hqueried, hget, hquery, howners,
    hloading, hanswered⟩ := hplan.returns_childSide hg hfiled hside ht' (List.nodup_singleton m)
      (by simpa using hfresh.made) (by simp [DistinctIds]) (hchild hside)
  obtain rfl : far = queried := by
    rw [hqueried, List.mem_singleton] at hleads
    rw [← hleads] at hget
    exact Except.ok.inj (hfar.symm.trans hget)
  have hasked : own ∈ owners.keys := by
    rw [← OrderedMap.contains_iff_mem_keys, OrderedMap.contains,
      (howners own m).mpr ⟨List.mem_singleton_self m, hown⟩, Option.isSome_some]
  have hanswer : record ∈ answers := hanswered.mem_of_asked
    (OrderedMap.mem_values_iff.mpr ⟨id, hstored⟩)
    (by simpa [← hbundle] using Condition.holds_eq_bundle record) hasked
    (Record.text_mem_of_mem_referenceIds hrefers.texts hrefers.refers.mem)
  obtain ⟨x, hx, hrecord⟩ := (hloading.found_iff hfiled hanswered).mpr
    ⟨hanswer, by rw [hquery]; rfl⟩
  refine ⟨hloading.spares, x, ?_, by rw [hloading.handed.relinks.record, hrecord]⟩
  obtain ⟨c, hloaded, hvalues, -⟩ := hloading.values_near (List.mem_singleton_self m)
    (Resolved.holdsSingle_of_child hside) (by simp [unsavedChildren, hfresh.children])
    (by simp [unsavedChildren, hfresh.children])
  refine (hasLoaded_of_many (Resolved.holdsSingle_of_child hside)).mpr ⟨c, hloaded, ?_⟩
  rw [hvalues, List.mem_append, mem_distinct,
    mem_map_snd_filter_childPairs howners (List.mem_singleton_self m), hrecord]
  exact .inr ⟨hx, own, hown, hrefers.refers.mem⟩

end Fetching

/-! ## Fetching again -/

namespace Graph

variable {g g' : Graph MemoryStore} {s : Session} {m x : Model} {near far : ModelType}
  {name id : String} {r : Resolved} {record target : Record}

/-- A record can be forged as a model of the type that describes it. -/
theorem exists_fresh (hg : g.WellFormed) (hfiled : g.store.Filed)
    (hchecked : g.registry.Checked) (hnear : g.registry.get near.name = .ok near)
    (hdescribes : near.describes record.entityType record.bundle = true)
    (hstored : record.isNew = false) (s : Session) :
    ∃ m g', Returns (Model.forgeRecord s record) g m g' ∧ g'.WellFormed ∧ g'.Fresh s m ∧
      g'.registry = g.registry ∧ g'.store = g.store ∧ (g'.model m).modelType = near ∧
      (g'.model m).record = record := by
  have htype : g.registry.typeForRecord? record = some near := by
    obtain ⟨u, hu⟩ : ∃ u, g.registry.typeForRecord? record = some u := by
      rw [Registry.typeForRecord?, Registry.typeForBundle?, ← Option.isSome_iff_exists,
        List.find?_isSome]
      exact ⟨near, Registry.mem_values_of_get hnear, hdescribes⟩
    have hother := List.find?_some hu
    simp only [ModelType.describes, Bool.and_eq_true, decide_eq_true_eq] at hdescribes hother
    rw [hu, hchecked.bundles u (List.mem_of_find?_eq_some hu) near
      (Registry.mem_values_of_get hnear) (hother.1.trans hdescribes.1.symm)
      (hother.2.trans hdescribes.2.symm)]
  obtain ⟨m, g', hforge⟩ := Model.succeeds_forge s near record g
  have hrun : Returns (Model.forgeRecord s record) g m g' := by
    refine returns_bind.mpr ⟨g, g, returns_get.mpr ⟨rfl, rfl⟩, ?_⟩
    rw [htype]
    exact hforge
  have hupholds : Upholds MemoryStore.Filed (Model.forgeRecord s record) g _ :=
    Model.upholds_forgeRecord ⟨hg, hfiled⟩ record
  obtain ⟨hsound, -⟩ := hupholds.of_returns hrun
  obtain ⟨hforges, hstore, -, hmade, hrecord, hmodelType, -, hparents, hchildren⟩ :=
    Model.returns_forge hforge
  have hsession : (g'.model m).session = s := by
    obtain ⟨key, between, e, -, hbetween, rfl, rfl⟩ := Model.returns_forge_eq hforge
    have hnext : between.nextModel = g.nextModel := by
      rcases hbetween with rfl | ⟨d, rfl⟩
      · rfl
      · rfl
    rw [model_setSession, model_addModel, if_pos hnext.symm]
  exact ⟨m, g', hrun, hsound.wellFormed,
    ⟨hmade, hsession, by rw [hrecord, hstored], hparents, hchildren⟩, hforges.registry, hstore,
    hmodelType, hrecord⟩

/-- What was fetched for a fresh model is read with the fetch. -/
theorem Fresh.exists_fetch (hg : g.WellFormed) (hfresh : g.Fresh s m)
    (hresolve : g.registry.resolve (g.model m).modelType.name name = .ok r)
    (hpoint : '.' ∉ name.toList)
    (hfetch : Returns (fetchRelationship s [m] name none) g () g') (hspares : g.Spares g' [m])
    (hloaded : g'.HasLoaded m r x) :
    ∃ related, Returns ((Related.model m).fetch (pathSteps name) none) g related g' ∧
      related.Holds g' x := by
  obtain rfl := Registry.name_of_resolve hg.registry hresolve
  obtain ⟨related, hread, hholds⟩ := hloaded.exists_read
    (by rw [hspares.registry, hspares.model m hfresh.made]; exact hresolve)
  refine ⟨related, ?_, hholds⟩
  rw [pathSteps_of_no_point hpoint]
  refine returns_bind.mpr ⟨.model m, g, returns_pure.mpr ⟨rfl, rfl⟩, ?_⟩
  refine returns_bind.mpr ⟨g.model m, g, Model.returns_data.mpr ⟨rfl, rfl⟩, ?_⟩
  rw [hfresh.session]
  exact returns_bind.mpr ⟨(), g', hfetch, hread⟩

/-- Wherever the registry and the stored records are these, a fresh model of the record can be
forged, the relationship can be fetched for it and read, and leads to a model that is stored
under the identifier. -/
def Finds (g : Graph MemoryStore) (record : Record) (name entityType id : String) : Prop :=
  ∀ h : Graph MemoryStore, h.WellFormed → h.store.Filed → h.registry = g.registry →
    h.store.records = g.store.records → ∀ s, ∃ m forged related fetched x,
      Returns (Model.forgeRecord s record) h m forged ∧
      Returns ((Related.model m).fetch (pathSteps name) none) forged related fetched ∧
      related.Holds fetched x ∧ fetched.IsStoredAs x entityType id

/-- Only the registry and the stored records matter. -/
theorem Stores.of_records (h : g.Stores far id target)
    (hrecords : g'.store.records = g.store.records) : g'.Stores far id target := by
  refine ⟨?_, h.2⟩
  rw [stored, MemoryStore.recordsOf, hrecords]
  exact h.1

theorem TellsBack.of_records {ids : List String} (h : g.TellsBack r ids)
    (hregistry : g'.registry = g.registry) (hrecords : g'.store.records = g.store.records) :
    g'.TellsBack r ids := by
  intro far id record hleads hfar hid hstored
  rw [hregistry] at hfar ⊢
  exact h far id record hleads hfar hid (hstored.of_records hrecords.symm)

/-- What is fetched for every fresh model of the record is found by the record. -/
theorem finds_of_fresh (hfiled : g.store.Filed) (hchecked : g.registry.Checked)
    (hlinks : g.registry.Leads near name r far)
    (hdescribes : near.describes record.entityType record.bundle = true)
    (hnew : record.isNew = false) (hpoint : '.' ∉ name.toList) (hstored : g.Stores far id target)
    (hfetch : ∀ h : Graph MemoryStore, h.WellFormed → h.store.Filed →
      h.registry = g.registry → h.store.records = g.store.records → ∀ s m, h.Fresh s m →
        (h.model m).modelType = near → (h.model m).record = record →
          ∃ h', Returns (fetchRelationship s [m] name none) h () h' ∧ h.Spares h' [m] ∧
            ∃ x, h'.HasLoaded m r x ∧ (h'.model x).record = target) :
    g.Finds record name far.entityType id := by
  intro h hh hhFiled hregistry hrecords s
  obtain ⟨m, forged, hforge, hforged, hfresh, hsame, hstore, htype, hrecord⟩ :=
    exists_fresh hh hhFiled (hregistry ▸ hchecked) (by rw [hregistry, hlinks.registered])
      hdescribes hnew s
  have hforgedRegistry := hsame.trans hregistry
  obtain ⟨fetched, hrun, hspares, x, hloaded, hx⟩ := hfetch forged hforged
    (by rw [hstore]; exact hhFiled) hforgedRegistry (by rw [hstore, hrecords]) s m hfresh htype
    hrecord
  obtain ⟨related, hfetched, hholds⟩ := hfresh.exists_fetch hforged
    (by rw [hforgedRegistry, htype]; exact hlinks.resolves) hpoint hrun hspares hloaded
  obtain ⟨hid, hentity⟩ := hfiled far.entityType id target hstored.1
  exact ⟨m, forged, related, fetched, x, hforge, hfetched, hholds, by rw [hx, hentity],
    by rw [hx, hid]⟩

/-- A record finds the records of far types that its key refers to. -/
theorem finds_parent (hfiled : g.store.Filed) (hchecked : g.registry.Checked)
    (hlinks : g.registry.Leads near name r far) (hside : r.side = .parent)
    (hdescribes : near.describes record.entityType record.bundle = true)
    (hnew : record.isNew = false) (hpoint : '.' ∉ name.toList) (hstored : g.Stores far id target)
    (hrefers : record.RefersBy r.foreignKey r.cardinality id)
    (hback : g.TellsBack r (record.referenceIds r.foreignKey.field r.foreignKey.column)) :
    g.Finds record name far.entityType id := by
  refine finds_of_fresh hfiled hchecked hlinks hdescribes hnew hpoint hstored ?_
  rintro h hh hhFiled hregistry hrecords s m hfresh rfl hrecord
  exact Fetching.exists_fetched_parent hh hhFiled (hregistry ▸ hchecked) hfresh
    (hregistry ▸ hlinks) hside (hstored.of_records hrecords)
    (by rw [keyIds, hrecord]; exact hrefers.refers)
    (by rw [keyIds, hrecord]; exact hback.of_records hregistry hrecords)

/-- A record finds the records of the far type whose key refers to it. -/
theorem finds_child {own : String} (hfiled : g.store.Filed) (hchecked : g.registry.Checked)
    (hlinks : g.registry.Leads near name r far) (hside : r.side = .child)
    (hdescribes : near.describes record.entityType record.bundle = true)
    (hown : record.id = some own) (hpoint : '.' ∉ name.toList) (hstored : g.Stores far id target)
    (hrefers : target.RefersBy r.foreignKey r.cardinality own)
    (hback : r.cardinality = .multiple → ∀ inverse, r.inverseOn? far.name = some inverse →
      ∃ back, g.registry.resolve far.name inverse = .ok back) :
    g.Finds record name far.entityType id := by
  refine finds_of_fresh hfiled hchecked hlinks hdescribes (by simp [Record.isNew, hown]) hpoint
    hstored ?_
  rintro h hh hhFiled hregistry hrecords s m hfresh rfl hrecord
  exact Fetching.exists_fetched_child hh hhFiled (hregistry ▸ hchecked) hfresh
    (hregistry ▸ hlinks) hside (hstored.of_records hrecords) (by rw [hrecord, hown]) hrefers
    (by rw [hregistry]; exact hback)

end Graph

end RecordGraph
