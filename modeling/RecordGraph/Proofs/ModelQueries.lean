/-
# Models of the right bundle

A query for the models of a type selects by the bundle, which conditions compare as they compare
all values: texts that spell the same number are equal. The query for several types looks at the
bundle of a record again before it wraps the record, and so answers models of these bundles only,
whatever the store holds. The query for one type wraps whatever it selects. It answers models of
its own bundle only as long as no record is stored whose bundle spells the same number in another
way.
-/
import RecordGraph.Proofs.Fetching.Succeeding

namespace RecordGraph

namespace ModelQuery

/-- Types that can be queried together share an entity type. -/
theorem eq_of_ofTypes {ts : List ModelType} {q : ModelQuery} (h : ofTypes ts = .ok q) :
    ∃ entityType, (∀ t ∈ ts, t.entityType = entityType) ∧
      q = ⟨.several ts, (Query.new entityType).addBase
        (Condition.inList bundleField (ts.map fun t => .text t.bundle))⟩ := by
  unfold ofTypes at h
  split at h
  · cases h
  · rename_i first rest
    split at h
    · cases h
    · rename_i hsame
      rw [List.find?_eq_none] at hsame
      exact ⟨first.entityType, by simpa using hsame, (Except.ok.inj h).symm⟩

/-- The queries for the models of one type, and of several. -/
inductive ForTypes : ModelQuery → Prop where
  | one (t : ModelType) : ForTypes (ofType t)
  | several {ts : List ModelType} {q : ModelQuery} (h : ofTypes ts = .ok q) : ForTypes q

/-- A query for models with all that callers ask for besides. -/
def asking (q : ModelQuery) (callers : Query) : ModelQuery :=
  q.map fun owner =>
    { callers with
      entityType := owner.entityType
      baseConditions := owner.baseConditions ++ callers.baseConditions }

variable {q : ModelQuery} {callers : Query}

theorem plain_asking (h : callers.Plain) : (q.asking callers).query.Plain :=
  ⟨h.range, h.accessPolicy, h.untagged⟩

/-- Owner and callers both narrow what is selected. -/
theorem meets_asking (r : Record) : (q.asking callers).query.meets r =
    (q.query.baseConditions.all (·.holds r) && callers.meets r) := by
  have hbase : (q.asking callers).query.baseConditions =
      q.query.baseConditions ++ callers.baseConditions := rfl
  have hlogic : (q.asking callers).query.callerLogic = callers.callerLogic := rfl
  have hholds : (q.asking callers).query.conditionHolds r = callers.conditionHolds r := rfl
  have hgroups : (q.asking callers).query.groups = callers.groups := rfl
  rw [Query.meets, Query.meets, hbase, hlogic, hholds, hgroups, List.all_append]
  simp only [Bool.and_assoc]

/-- Whether a record is of the bundle of a type that is asked for. -/
def asksForBundle (q : ModelQuery) (r : Record) : Bool :=
  q.wrapping.types.any fun t => t.bundle = r.bundle

namespace ForTypes

theorem entityType_eq (h : q.ForTypes) {t : ModelType} (ht : t ∈ q.wrapping.types) :
    t.entityType = q.query.entityType := by
  cases h with
  | one u =>
      rw [List.mem_singleton.mp ht]
      rfl
  | several hq =>
      obtain ⟨entityType, hsame, rfl⟩ := eq_of_ofTypes hq
      exact hsame t ht

/-- The owner selects by the bundle, compared in the way of conditions. -/
theorem holds_base (h : q.ForTypes) (r : Record) : q.query.baseConditions.all (·.holds r) =
    q.wrapping.types.any fun t => Value.looselyEqual (.text r.bundle) (.text t.bundle) := by
  cases h with
  | one u =>
      have hbase : (ofType u).query.baseConditions =
          [Condition.eq bundleField (.text u.bundle)] := rfl
      rw [hbase, List.all_cons, List.all_nil, Bool.and_true, Condition.holds_eq_bundleField]
      simp [ofType, Wrapping.types]
  | several hq =>
      obtain ⟨entityType, -, rfl⟩ := eq_of_ofTypes hq
      simp only [Query.addBase, Query.new, List.nil_append, List.all_cons, List.all_nil,
        Bool.and_true, Condition.holds_inList_bundleField, List.any_map, Wrapping.types,
        Function.comp_def]

/-- A record of a bundle that is asked for meets what the owner asks. -/
theorem holds_base_of_asksForBundle (h : q.ForTypes) {r : Record}
    (hr : q.asksForBundle r = true) : q.query.baseConditions.all (·.holds r) = true := by
  obtain ⟨t, ht, hbundle⟩ := List.any_eq_true.mp hr
  rw [decide_eq_true_eq] at hbundle
  rw [h.holds_base, List.any_eq_true]
  exact ⟨t, ht, by rw [hbundle]; exact Value.looselyEqual_self_text r.bundle⟩

end ForTypes

/-- No stored record has the bundle of a type that is asked for in another spelling. -/
def SpellsBundles (q : ModelQuery) (s : MemoryStore) : Prop :=
  ∀ r ∈ (s.recordsOf q.query.entityType).values, ∀ t ∈ q.wrapping.types,
    Value.looselyEqual (.text r.bundle) (.text t.bundle) = true → r.bundle = t.bundle

/-- What is wrapped of the selected records are those of a bundle that is asked for. -/
theorem ForTypes.typeFor_isSome (h : q.ForTypes) {s : MemoryStore}
    (hspells : q.wrapping.isPolymorphic = false → q.SpellsBundles s) {r : Record}
    (hr : r ∈ (s.recordsOf q.query.entityType).values)
    (hbase : q.query.baseConditions.all (·.holds r) = true) :
    (q.wrapping.typeFor? r).isSome = q.asksForBundle r := by
  cases h with
  | one u =>
      rw [(ForTypes.one u).holds_base, List.any_eq_true] at hbase
      obtain ⟨t, ht, hloose⟩ := hbase
      have hbundle := hspells rfl r hr t ht hloose
      have hasks : (ofType u).asksForBundle r = true :=
        List.any_eq_true.mpr ⟨t, ht, decide_eq_true hbundle.symm⟩
      rw [hasks]
      rfl
  | several hq =>
      obtain ⟨entityType, -, rfl⟩ := eq_of_ofTypes hq
      rw [Bool.eq_iff_iff, asksForBundle, List.any_eq_true]
      exact List.find?_isSome

/-- A record of a bundle that is asked for is wrapped in a type of this bundle. -/
theorem ForTypes.bundle_of_typeFor (h : q.ForTypes) {r : Record} {t : ModelType}
    (ht : q.wrapping.typeFor? r = some t) (hasks : q.asksForBundle r = true) :
    t.bundle = r.bundle := by
  cases h with
  | one u =>
      obtain rfl := Option.some.inj ht
      simpa [asksForBundle, ofType, Wrapping.types] using hasks
  | several hq =>
      obtain ⟨entityType, -, rfl⟩ := eq_of_ofTypes hq
      simpa using List.find?_some ht

/-! ## Running the query -/

variable {g : Graph MemoryStore}

/-- The records that are asked for and have a type become new models, in order. -/
theorem exists_fetchModels (hplain : callers.Plain) (hfiled : g.store.Filed) (s : Session)
    {built : StoreQuery} (hbuilt : (q.asking callers).query.build = .ok built) :
    ∃ models g', Returns ((q.asking callers).fetchModels s) g models g' ∧
      (∀ m ∈ models, g.Wraps g' q.wrapping m) ∧
      models.map (fun m => (g'.model m).record) =
        (g.store.answersTo (q.asking callers).query).filter fun r =>
          (q.wrapping.typeFor? r).isSome := by
  obtain ⟨rs, between, hfetch⟩ := (plain_asking hplain).succeeds_fetch hbuilt s g
  obtain ⟨models, g', hwrap⟩ := (q.asking callers).succeeds_wrapAll s rs between
  obtain ⟨-, hrs⟩ := (plain_asking hplain).returns_fetch hfiled hfetch
  obtain ⟨store, rfl⟩ := Query.returns_fetch hfetch
  obtain ⟨-, -, hwraps, hrecords⟩ := returns_wrapAll hwrap
  exact ⟨models, g', returns_bind.mpr ⟨rs, _, hfetch, hwrap⟩,
    fun m hm => .earlier (.setStore g store) (hwraps m hm), hrs ▸ hrecords⟩

theorem mem_answersTo_asking {r : Record} :
    r ∈ g.store.answersTo (q.asking callers).query ↔
      r ∈ (g.store.recordsOf q.query.entityType).values ∧
        q.query.baseConditions.all (·.holds r) = true ∧ callers.meets r = true := by
  rw [MemoryStore.mem_answersTo, meets_asking, Bool.and_eq_true]
  rfl

end ModelQuery

/-- The type of a bundle that is asked for is the one registered for the record. -/
theorem Registry.Checked.typeForRecord_eq {registry : Registry} (h : registry.Checked)
    {t : ModelType} (ht : registry.get t.name = .ok t) {r : Record}
    (hentity : t.entityType = r.entityType) (hbundle : t.bundle = r.bundle) :
    registry.typeForRecord? r = some t := by
  have hmem := Registry.mem_values_of_get ht
  obtain ⟨u, hu⟩ : ∃ u, registry.typeForRecord? r = some u := by
    rw [← Option.isSome_iff_exists, Registry.typeForRecord?, Registry.typeForBundle?,
      List.find?_isSome]
    exact ⟨t, hmem, by simp [ModelType.describes, hentity, hbundle]⟩
  have hdescribes := List.find?_some hu
  simp only [ModelType.describes, Bool.and_eq_true, decide_eq_true_eq] at hdescribes
  rw [hu, h.bundles u (List.mem_of_find?_eq_some hu) t hmem (hdescribes.1.trans hentity.symm)
    (hdescribes.2.trans hbundle.symm)]

/-- A query for models that can be built is answered by the stored records of the queried bundles
that meet what the callers ask, in the order of the query, each wrapped in the type that is
registered for it. For a query of one type this asks that no bundle is stored in another
spelling. -/
theorem fetchModels_of_bundles {types : List ModelType} {g : Graph MemoryStore}
    (hbuild : Registry.build types = .ok g.registry) (hfiled : g.store.Filed) {q : ModelQuery}
    (hq : q.ForTypes) (hregistered : q.Registered g.registry)
    (hspells : q.wrapping.isPolymorphic = false → q.SpellsBundles g.store) {callers : Query}
    (hplain : callers.Plain) {built : StoreQuery}
    (hbuilt : (q.asking callers).query.build = .ok built) (s : Session) :
    ∃ models g', Returns ((q.asking callers).fetchModels s) g models g' ∧
      (models.map fun m => (g'.model m).record) =
        (g.store.answersTo (q.asking callers).query).filter q.asksForBundle ∧
      (∀ r, r ∈ models.map (fun m => (g'.model m).record) ↔
        r ∈ (g.store.recordsOf q.query.entityType).values ∧ callers.meets r = true ∧
          ∃ t ∈ q.wrapping.types, t.bundle = r.bundle) ∧
      ∀ m ∈ models, (g'.model m).modelType ∈ q.wrapping.types ∧
        g.registry.typeForRecord? (g'.model m).record = some (g'.model m).modelType := by
  obtain ⟨models, g', hreturns, hwraps, hrecords⟩ :=
    ModelQuery.exists_fetchModels (q := q) hplain hfiled s hbuilt
  have hkept : (models.map fun m => (g'.model m).record) =
      (g.store.answersTo (q.asking callers).query).filter q.asksForBundle := by
    rw [hrecords]
    refine List.filter_congr fun r hr => ?_
    obtain ⟨hstored, hbase, -⟩ := ModelQuery.mem_answersTo_asking.mp hr
    exact hq.typeFor_isSome hspells hstored hbase
  have hmem : ∀ r, r ∈ models.map (fun m => (g'.model m).record) ↔
      r ∈ (g.store.recordsOf q.query.entityType).values ∧ callers.meets r = true ∧
        q.asksForBundle r = true := by
    intro r
    rw [hkept, List.mem_filter, ModelQuery.mem_answersTo_asking]
    exact ⟨fun ⟨⟨hstored, _, hmeets⟩, hasks⟩ => ⟨hstored, hmeets, hasks⟩,
      fun ⟨hstored, hmeets, hasks⟩ =>
        ⟨⟨hstored, hq.holds_base_of_asksForBundle hasks, hmeets⟩, hasks⟩⟩
  refine ⟨models, g', hreturns, hkept, ?_, fun m hm => ?_⟩
  · simpa [ModelQuery.asksForBundle] using hmem
  · obtain ⟨hstored, -, hasks⟩ := (hmem _).mp (List.mem_map_of_mem hm)
    have hwrapped := (hwraps m hm).2.2.typeFor
    have htype := Wrapping.mem_types_of_typeFor hwrapped
    obtain ⟨id, hget⟩ := OrderedMap.mem_values_iff.mp hstored
    refine ⟨htype, (Registry.checked_of_build hbuild).typeForRecord_eq (hregistered _ htype) ?_
      (hq.bundle_of_typeFor hwrapped hasks)⟩
    rw [hq.entityType_eq htype, (hfiled _ id _ hget).2]

namespace Library

theorem build_registry (types : List ModelType) (h : (Registry.build types).isOk = true) :
    Registry.build types = .ok (registry types) :=
  eq_ok_of_isOk h Registry.empty

/-- Callers who ask for what ann wrote. -/
def byAnn : Query := (Query.new "node").addCondition (.eq "writer.target_id" (.text "ann"))

/-- An unfinished version. -/
def draft : ModelType := ModelType.new "draft" "node" "1"

/-- A finished version; its bundle spells the same number as that of a draft. -/
def print : ModelType := ModelType.new "print" "node" "1.0"

/-- A record of each of the two bundles. -/
def versions : MemoryStore :=
  [(Record.new "node" "1").withId "cells", (Record.new "node" "1.0").withId "trees"].foldl
    (fun s r => (s.seed r).2) MemoryStore.empty

/-- The graph over these records with a session opened. -/
def released : Graph MemoryStore :=
  (Session.start ⟨"PLH", .and, none, false⟩ (Graph.new versions (registry [draft, print]))).2

/-- The query for drafts and prints. -/
def releases : ModelQuery := (ModelQuery.ofTypes [draft, print]).toOption.getD default

/-- One query for articles and one for the two types together. -/
theorem byAnn_of_bundles :
    (∃ models g', Returns (((ModelQuery.ofType article).asking byAnn).fetchModels session)
        (opened [author, article]) models g' ∧
      written "cells" "ann" ∈ models.map (fun m => (g'.model m).record) ∧
      written "trees" "bob" ∉ models.map fun m => (g'.model m).record) ∧
    ∃ models g', Returns ((releases.asking (Query.new "node")).fetchModels session)
        released models g' ∧
      (Record.new "node" "1.0").withId "trees" ∈ models.map (fun m => (g'.model m).record) ∧
      ∀ m ∈ models, released.registry.typeForRecord? (g'.model m).record =
        some (g'.model m).modelType := by
  have hplain : ∀ q : Query, q.range = none → q.accessPolicy = none → q.tags = [] → q.Plain :=
    fun q hrange hpolicy htags => ⟨hrange, hpolicy, by simp [htags]⟩
  constructor
  · have hspells : (ModelQuery.ofType article).SpellsBundles (opened [author, article]).store := by
      unfold ModelQuery.SpellsBundles
      decide +kernel
    have harticle : (opened [author, article]).registry.get article.name = .ok article := rfl
    obtain ⟨models, g', hreturns, -, hmem, -⟩ := fetchModels_of_bundles
      (g := opened [author, article]) (build_registry [author, article] (by decide +kernel))
      filed_store (.one article) (ModelQuery.registered_ofType harticle) (fun _ => hspells)
      (hplain byAnn rfl rfl rfl)
      (eq_ok_of_isOk (by decide +kernel) default) session
    refine ⟨models, g', hreturns, (hmem _).mpr ⟨?_, ?_, ?_⟩, fun h => ?_⟩
    · exact OrderedMap.mem_values_iff.mpr ⟨"cells", rfl⟩
    · decide +kernel
    · exact ⟨article, by simp [ModelQuery.ofType, Wrapping.types], rfl⟩
    · have hmeets : byAnn.meets (written "trees" "bob") = true := ((hmem _).mp h).2.1
      exact absurd hmeets (by decide +kernel)
  · have hfiled : versions.Filed := (MemoryStore.filed_empty.seed _).seed _
    have hreleases : ModelQuery.ofTypes [draft, print] = .ok releases :=
      eq_ok_of_isOk (by decide +kernel) default
    have hregistered : ∀ t ∈ [draft, print], released.registry.get t.name = .ok t := by
      simp only [List.forall_mem_cons]
      exact ⟨rfl, rfl, by simp⟩
    obtain ⟨models, g', hreturns, -, hmem, htypes⟩ := fetchModels_of_bundles
      (g := released) (build_registry [draft, print] (by decide +kernel)) hfiled
      (.several hreleases) (ModelQuery.registered_ofTypes hregistered hreleases)
      (fun hone => absurd hone (by decide +kernel))
      (hplain (Query.new "node") rfl rfl rfl) (eq_ok_of_isOk (by decide +kernel) default) session
    refine ⟨models, g', hreturns, (hmem _).mpr ⟨?_, ?_, ?_⟩, fun m hm => (htypes m hm).2⟩
    · exact OrderedMap.mem_values_iff.mpr ⟨"trees", rfl⟩
    · decide +kernel
    · rw [show releases.wrapping.types = [draft, print] from rfl]
      exact ⟨print, by simp, rfl⟩

/-- The query for drafts makes a draft of a print. -/
theorem print_wrapped_as_draft : Registry.build [draft, print] = .ok released.registry ∧
    ∃ models g', Returns ((ModelQuery.ofType draft).fetchModels session) released models g' ∧
      ∃ m ∈ models, (g'.model m).modelType = draft ∧ (g'.model m).record.bundle = print.bundle ∧
        released.registry.typeForRecord? (g'.model m).record = some print := by
  refine ⟨build_registry [draft, print] (by decide +kernel), ?_⟩
  have hfiled : versions.Filed := (MemoryStore.filed_empty.seed _).seed _
  have hplain : (Query.new "node").Plain := ⟨rfl, rfl, by simp [Query.new]⟩
  obtain ⟨models, g', hreturns, hwraps, hrecords⟩ := ModelQuery.exists_fetchModels
    (q := ModelQuery.ofType draft) (g := released) hplain hfiled session
    (eq_ok_of_isOk (by decide +kernel) default)
  have hprint : (Record.new "node" "1.0").withId "trees" ∈
      models.map fun m => (g'.model m).record := by
    rw [hrecords, List.mem_filter, ModelQuery.mem_answersTo_asking]
    exact ⟨⟨OrderedMap.mem_values_iff.mpr ⟨"trees", rfl⟩, by decide +kernel, by decide +kernel⟩,
      rfl⟩
  obtain ⟨m, hm, hrecord⟩ := List.mem_map.mp hprint
  refine ⟨models, g', hreturns, m, hm, ?_, by rw [hrecord]; rfl, by rw [hrecord]; rfl⟩
  exact List.mem_singleton.mp (Wrapping.mem_types_of_typeFor (hwraps m hm).2.2.typeFor)

end Library

end RecordGraph
