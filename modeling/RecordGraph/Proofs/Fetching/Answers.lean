/-
# What a fetch finds in the store in memory

The batches compare identifiers loosely, so a batch may select more records than it asks for;
but a text equals itself, so it never misses one. After all batches there is exactly one model
for every identifier asked for under which the relationship's query has a record.
-/
import RecordGraph.Proofs.Fetching.Groups
import RecordGraph.Proofs.Graphs
import RecordGraph.Proofs.MemoryStores

namespace RecordGraph

/-! ## The query of a relationship -/

namespace Registry

variable {g : Registry} {relationship : Relationship} {resolved : Resolved}

/-- Far models are queried by one condition on their bundle, which is sound. -/
theorem relationshipQuery_eq_ofBase {q : ModelQuery}
    (h : g.relationshipQuery relationship = .ok q) :
    ∃ entityType c, q.query = Query.ofBase entityType [c] ∧ c.fault? = none := by
  simp only [relationshipQuery, except_bind_eq_ok] at h
  obtain ⟨_, -, types, -, h⟩ := h
  split at h
  · rw [except_pure_eq_ok] at h
    subst h
    exact ⟨_, _, rfl, rfl⟩
  · unfold ModelQuery.ofTypes at h
    split at h
    · simp at h
    · split at h
      · simp at h
      · obtain rfl := Except.ok.inj h
        exact ⟨_, _, rfl, rfl⟩

/-- A relationship that does not hold the foreign key leads to one registered type. -/
theorem exists_far_of_child {typeName name : String} (hg : g.WellFormed)
    (hresolved : g.resolve typeName name = .ok resolved) (hside : resolved.side = .child) :
    ∃ far, resolved.farTypes = [far.name] ∧ g.get far.name = .ok far := by
  obtain ⟨_, _, -, -, -, -, -, hresolve⟩ := declared_of_resolve hg hresolved
  obtain ⟨farName, back, other, hother, -, -, -, -, -, hfars, -⟩ :=
    resolveRelationship_child hresolve hside
  simp only [counterpart, except_bind_eq_ok] at hother
  obtain ⟨far, hfar, -⟩ := hother
  obtain ⟨hfarName, -⟩ := hg farName far (get_eq_ok.mp hfar)
  exact ⟨far, by rw [hfars, hfarName], by rw [hfarName, hfar]⟩

/-- The one far type of a relationship that does not hold the foreign key is the type of its
query. -/
theorem relationshipQuery_of_child {t : ModelType} {name : String} {q : ModelQuery}
    (hg : g.WellFormed) (hresolved : g.resolve t.name name = .ok resolved)
    (hside : resolved.side = .child) (ht : g.get t.name = .ok t)
    (hrelationship : t.relationship name = .ok relationship)
    (h : g.relationshipQuery relationship = .ok q) :
    ∃ far, resolved.farTypes = [far.name] ∧ g.get far.name = .ok far ∧
      q = ModelQuery.ofType far := by
  obtain ⟨owner, declared, howner, -, hfiled, hname, hsource, hresolve⟩ :=
    declared_of_resolve hg hresolved
  obtain rfl : t = owner := Except.ok.inj (ht.symm.trans howner)
  obtain rfl : relationship = declared := Except.ok.inj (hrelationship.symm.trans hfiled)
  obtain ⟨farName, -, -, -, -, -, -, -, -, hfars, -⟩ := resolveRelationship_child hresolve hside
  simp only [relationshipQuery, hsource, hname, hresolved, except_bind_eq_ok, Except.ok.injEq,
    exists_eq_left', hfars, List.mapM_cons, List.mapM_nil, except_pure_eq_ok] at h
  obtain ⟨types, ⟨far, hfar, -, rfl, rfl⟩, h⟩ := h
  obtain ⟨hfarName, -⟩ := hg farName far (get_eq_ok.mp hfar)
  simp only [except_pure_eq_ok] at h
  exact ⟨far, by rw [hfars, hfarName], by rw [hfarName, hfar], h⟩

/-- Far records are looked up by identifier from the side with the foreign key, by their
foreign key from the other side. -/
theorem relationshipCondition_eq {t : ModelType} {name : String} {c : Condition}
    (hg : g.WellFormed) (hresolved : g.resolve t.name name = .ok resolved)
    (ht : g.get t.name = .ok t) (hrelationship : t.relationship name = .ok relationship)
    (h : g.relationshipCondition relationship = .ok c) :
    c = (Condition.inList (match resolved.side with
      | .parent => idField
      | .child => resolved.foreignKey.path) []).required := by
  obtain ⟨owner, declared, howner, -, hfiled, hname, hsource, -⟩ :=
    declared_of_resolve hg hresolved
  obtain rfl : t = owner := Except.ok.inj (ht.symm.trans howner)
  obtain rfl : relationship = declared := Except.ok.inj (hrelationship.symm.trans hfiled)
  simp only [relationshipCondition, hsource, hname, hresolved, except_bind_eq_ok,
    Except.ok.injEq, exists_eq_left', except_pure_eq_ok] at h
  refine h.trans ?_
  cases resolved.side with
  | parent => rfl
  | child => rfl

end Registry

/-- No unsaved model has the identifier of a stored record as its placeholder. -/
def Graph.PlaceholdersApart (g : Graph MemoryStore) : Prop :=
  ∀ x, g.HasModel x → (g.model x).record.isNew = true →
    ∀ entityType, (g.store.recordsOf entityType).get? (g.model x).key = none

instance (g : Graph MemoryStore) : Decidable g.PlaceholdersApart :=
  decidable_of_iff (∀ i < g.models.size, (g.model ⟨i⟩).record.isNew = true →
      ∀ byId ∈ g.store.records.values, byId.get? (g.model ⟨i⟩).key = none) <| by
    constructor
    · intro h x hx hnew entityType
      rw [Option.eq_none_iff_forall_ne_some]
      intro r hr
      obtain ⟨byId, hbyId, hget⟩ := MemoryStore.exists_of_get?_recordsOf hr
      rw [h x.number hx hnew byId hbyId] at hget
      cases hget
    · intro h i hi hnew byId hbyId
      obtain ⟨entityType, hentity⟩ := OrderedMap.mem_values_iff.mp hbyId
      simpa [MemoryStore.recordsOf, hentity] using h ⟨i⟩ hi hnew entityType

/-- So there is no record under the key of an unsaved model that is loaded somewhere. -/
theorem Graph.PlaceholdersApart.get?_unsaved {g : Graph MemoryStore} (h : g.PlaceholdersApart)
    (hg : g.WellFormed) {m x : Model} {name : String} (hm : g.HasModel m)
    (hx : x ∈ g.unsavedChildren m name) (entityType : String) :
    (g.store.recordsOf entityType).get? (g.model x).key = none := by
  obtain ⟨hthere, hnew⟩ := hg.of_mem_unsavedChildren hm hx
  exact h x hthere hnew entityType

/-! ## Asking for identifiers -/

theorem Value.looselyEqual_self_text (s : String) :
    Value.looselyEqual (.text s) (.text s) = true := by
  simp [looselyEqual, same]

theorem Condition.valuesAt_bundleField (r : Record) :
    r.valuesAt bundleField = [.text r.bundle] := by
  simp [Record.valuesAt, bundleField, idField]

/-- Bundles are compared as texts in the way of conditions. -/
theorem Condition.holds_eq_bundleField (r : Record) (bundle : String) :
    (eq bundleField (.text bundle)).holds r =
      Value.looselyEqual (.text r.bundle) (.text bundle) := by
  simp [holds, eq, new, valuesAt_bundleField, Operator.holdsOf]

theorem Condition.holds_inList_bundleField (r : Record) (values : List Value) :
    (inList bundleField values).holds r =
      values.any fun v => Value.looselyEqual (.text r.bundle) v := by
  simp [holds, inList, new, valuesAt_bundleField, Operator.holdsOf, Value.items]

/-- Asking for texts never misses a record that has one of them. -/
theorem Condition.holds_inList_of_mem {path id : String} {ids : List String} {r : Record}
    (hvalue : Value.text id ∈ r.valuesAt path) (hid : id ∈ ids) :
    ((inList path []).required.withValue (Value.texts ids)).holds r = true := by
  have hsome : (r.valuesAt path).isEmpty = false := by
    rw [List.isEmpty_eq_false_iff]
    exact List.ne_nil_of_mem hvalue
  unfold holds
  simp only [withValue, required, inList, new, hsome, Bool.false_eq_true, if_false,
    Operator.holdsOf, List.any_eq_true, Value.texts, Value.items, List.mem_map]
  exact ⟨_, hvalue, _, ⟨id, hid, rfl⟩, Value.looselyEqual_self_text id⟩

namespace Fetching

variable {plan : Plan} {g ran : Graph MemoryStore} {entityType path : String}
  {cs : List Condition} {ids : List String} {answers : List Record}

/-- The records that a batch selects. -/
def Selects (store : MemoryStore) (entityType : String) (cs : List Condition) (path : String)
    (ids : List String) (rs : List Record) : Prop :=
  ∀ r, r ∈ rs ↔ r ∈ (store.recordsOf entityType).values ∧ (∀ c ∈ cs, c.holds r = true) ∧
    ((Condition.inList path []).required.withValue (Value.texts ids)).holds r = true

/-- A batch selects the records that meet the conditions and compare with an identifier of the
batch. -/
theorem selects_of_returns_fetch {s : Session} {t t' : Graph MemoryStore} {rs : List Record}
    (hquery : plan.query.query = Query.ofBase entityType cs)
    (hcondition : plan.condition = (Condition.inList path []).required)
    (hfiled : g.store.Filed) (hsame : t.store.records = g.store.records)
    (h : Returns ((batchQuery plan ids).query.fetch s) t rs t') :
    t'.store.records = g.store.records ∧ Selects g.store entityType cs path ids rs := by
  have hbatch : (batchQuery plan ids).query = Query.ofBase entityType
      (cs ++ [(Condition.inList path []).required.withValue (Value.texts ids)]) := by
    simp only [batchQuery, ModelQuery.map, hquery, hcondition, Query.addBase_ofBase]
  rw [hbatch] at h
  obtain ⟨hrecords, hanswers⟩ := Query.returns_fetch_ofBase (hfiled.of_records hsame) h
  refine ⟨hrecords.trans hsame, fun r => ?_⟩
  rw [hanswers, MemoryStore.recordsOf, hsame]
  simp [MemoryStore.recordsOf, or_imp, forall_and]

/-- Batches together select what one of them selects. -/
theorem mem_flatten_of_selects {store : MemoryStore} {asked : List (List String)}
    {answered : List (List Record)}
    (h : List.Forall₂ (Selects store entityType cs path) asked answered) (r : Record) :
    r ∈ answered.flatten ↔ r ∈ (store.recordsOf entityType).values ∧
      (∀ c ∈ cs, c.holds r = true) ∧ ∃ batch ∈ asked,
        ((Condition.inList path []).required.withValue (Value.texts batch)).holds r = true := by
  rw [List.mem_flatten]
  induction h with
  | nil => simp
  | cons hbatch _ ih =>
      simp only [List.mem_cons, exists_eq_or_imp]
      rw [ih, hbatch r]
      constructor
      · rintro (⟨hstored, hmeets, hasked⟩ | ⟨hstored, hmeets, hasked⟩)
        · exact ⟨hstored, hmeets, .inl hasked⟩
        · exact ⟨hstored, hmeets, .inr hasked⟩
      · rintro ⟨hstored, hmeets, hasked | hasked⟩
        · exact .inl ⟨hstored, hmeets, hasked⟩
        · exact .inr ⟨hstored, hmeets, hasked⟩

/-- What a fetch is answered meets the conditions. -/
theorem Answered.meets {Stored : MemoryStore → Prop}
    (h : Answered plan Stored (Selects g.store entityType cs path) g ran ids answers)
    {r : Record} (hr : r ∈ answers) :
    r ∈ (g.store.recordsOf entityType).values ∧ ∀ c ∈ cs, c.holds r = true := by
  obtain ⟨answered, rfl, hbatches⟩ := h.byBatch
  obtain ⟨hstored, hmeets, -⟩ := (mem_flatten_of_selects hbatches r).mp hr
  exact ⟨hstored, hmeets⟩

/-- No record is missed that has a text which was asked for. -/
theorem Answered.mem_of_asked {Stored : MemoryStore → Prop}
    (h : Answered plan Stored (Selects g.store entityType cs path) g ran ids answers)
    {r : Record} (hstored : r ∈ (g.store.recordsOf entityType).values)
    (hmeets : ∀ c ∈ cs, c.holds r = true) {id : String} (hid : id ∈ ids)
    (hvalue : Value.text id ∈ r.valuesAt path) : r ∈ answers := by
  obtain ⟨answered, rfl, hbatches⟩ := h.byBatch
  rw [← flatten_batches ((g.session plan.session).config.fetchBatchSize.getD ids.length) ids,
    List.mem_flatten] at hid
  obtain ⟨batch, hbatch, hid⟩ := hid
  rw [mem_flatten_of_selects hbatches]
  exact ⟨hstored, hmeets, batch, hbatch, Condition.holds_inList_of_mem hvalue hid⟩

variable {unloaded g' : Graph MemoryStore} {members : List Model}
  {found : OrderedMap String Model} {pairs : List (Model × Model)} {m x : Model}

/-- Far models have keys of stored records, so a key without a record is none of theirs. -/
theorem Loading.key_ne_of_stored (hfiled : g.store.Filed)
    (h : Loading plan members g unloaded ran g' answers found pairs)
    (hstored : ∀ r ∈ answers, r ∈ (g.store.recordsOf entityType).values) {key : String}
    (hnone : (g.store.recordsOf entityType).get? key = none) {far : Model}
    (hfar : far ∈ found.values) : key ≠ (ran.model far).key := by
  rintro rfl
  obtain ⟨hget, hid⟩ := h.finds.get?_key hfar
  obtain ⟨hanswer, -⟩ := h.finds.record _ far hget
  obtain ⟨id, hfound⟩ := OrderedMap.mem_values_iff.mp (hstored _ hanswer)
  obtain ⟨hown, -⟩ := hfiled entityType id _ hfound
  rw [hid, Option.some.injEq] at hown
  rw [hown, hfound] at hnone
  cases hnone

/-- Far models have keys of stored records, which unsaved models have not. -/
theorem Loading.key_ne_of_unsaved {Stored : MemoryStore → Prop} (hg : g.WellFormed)
    (hfiled : g.store.Filed) (hapart : g.PlaceholdersApart) (hknown : ∀ m ∈ members, g.HasModel m)
    (h : Loading plan members g unloaded ran g' answers found pairs)
    (hanswered : Answered plan Stored (Selects g.store entityType cs path) g ran ids answers)
    {name : String} (hm : m ∈ members) (hx : x ∈ g.unsavedChildren m name) {far : Model}
    (hfar : far ∈ found.values) : (g.model x).key ≠ (ran.model far).key :=
  h.key_ne_of_stored hfiled (fun _ hr => (hanswered.meets hr).1)
    (hapart.get?_unsaved hg (hknown m hm) hx entityType) hfar

/-- The records that a fetch has found are those of the answers, each under its identifier. -/
theorem Loading.found_iff {Stored : MemoryStore → Prop} (hfiled : g.store.Filed)
    (h : Loading plan members g unloaded ran g' answers found pairs)
    (hanswered : Answered plan Stored (Selects g.store entityType cs path) g ran ids answers)
    {r : Record} : (∃ far ∈ found.values, (ran.model far).record = r) ↔
      r ∈ answers ∧ (plan.query.wrapping.typeFor? r).isSome := by
  constructor
  · rintro ⟨far, hfar, rfl⟩
    obtain ⟨id, hid⟩ := OrderedMap.mem_values_iff.mp hfar
    refine ⟨(h.finds.record id far hid).1, ?_⟩
    rw [(h.finds.wraps id far hid).2.2.typeFor, Option.isSome_some]
  · rintro ⟨hr, htype⟩
    obtain ⟨id, hstored⟩ := OrderedMap.mem_values_iff.mp (hanswered.meets hr).1
    obtain ⟨far, hfar⟩ := h.finds.complete r hr htype id (hfiled entityType id r hstored).1
    refine ⟨far, OrderedMap.mem_values_iff.mpr ⟨id, hfar⟩, ?_⟩
    obtain ⟨hanswer, hid⟩ := h.finds.record id far hfar
    obtain ⟨other, hother⟩ := OrderedMap.mem_values_iff.mp (hanswered.meets hanswer).1
    rw [(hfiled entityType other _ hother).1, Option.some.injEq] at hid
    rw [hid, hstored, Option.some.injEq] at hother
    exact hother.symm

/-! ## Members of one type -/

variable {s : Session} {t : ModelType} {name : String} {callers : Option Query}

/-- Members of one type are loaded by one plan, which the registry gives for their type. -/
theorem exists_planned_of_one_type {typeName : String} {resolved : Resolved} (hg : g.WellFormed)
    (hsome : members ≠ []) (hmembers : ∀ m ∈ members, g.HasModel m)
    (htypes : ∀ m ∈ members, (g.model m).modelType.name = typeName)
    (hresolved : g.registry.resolve typeName name = .ok resolved)
    (h : Returns (fetchRelationship s members name callers) g () g') :
    ∃ t plan, t.name = typeName ∧ g.registry.get t.name = .ok t ∧
      (∀ m ∈ members, (g.model m).modelType = t) ∧
      Planned g.registry s t name callers plan ∧ plan.resolved = resolved ∧
      (resolved.side = .parent → Returns (parentSide plan members) g () g') ∧
      (resolved.side = .child → Returns (childSide plan members) g () g') := by
  obtain ⟨t, ht, hgroup⟩ := returns_fetchRelationship_of_one_type hsome htypes h
  obtain ⟨rfl, -⟩ := hg.registry typeName t (Registry.get_eq_ok.mp ht)
  obtain ⟨plan, hplan, hparent, hchild⟩ := returns_fetchGroup hgroup
  obtain rfl : plan.resolved = resolved := Except.ok.inj (hplan.resolved.symm.trans hresolved)
  refine ⟨t, plan, rfl, ht, fun m hm => ?_, hplan, rfl, hparent, hchild⟩
  have hregistered := hg.typed m (hmembers m hm)
  rw [htypes m hm] at hregistered
  exact Except.ok.inj (hregistered.symm.trans ht)

namespace Planned

/-- Without a copied query, members that hold the foreign key ask by identifier for records
that meet one condition. -/
theorem returns_parentSide (hg : g.WellFormed) (hfiled : g.store.Filed)
    (hplan : Planned g.registry s t name none plan) (hside : plan.resolved.side = .parent)
    (ht : g.registry.get t.name = .ok t) (htypes : ∀ m ∈ members, (g.model m).modelType = t)
    (hnodup : members.Nodup) (hmembers : ∀ m ∈ members, g.HasModel m)
    (h : Returns (parentSide plan members) g () g') :
    ∃ entityType c unloaded ran answers found,
      plan.query.query = Query.ofBase entityType [c] ∧
      Loading plan (members.filter fun m => !plan.keeps g m) g unloaded ran g' answers found
        (parentPairs plan g found (members.filter fun m => !plan.keeps g m)) ∧
      Answered plan (fun store => store.records = g.store.records)
        (Selects g.store entityType [c] idField) g ran (distinct
          ((members.filter fun m => !plan.keeps g m).map
            (g.keyIds plan.resolved.foreignKey)).flatten) answers := by
  obtain ⟨relationship, q, hrelationship, hq, hcondition, hquery⟩ := hplan.declared
  obtain ⟨entityType, c, hsingle, -⟩ := Registry.relationshipQuery_eq_ofBase hq
  have hbase : plan.query.query = Query.ofBase entityType [c] := by
    rw [hquery]
    exact hsingle
  have hpath := Registry.relationshipCondition_eq hg.registry hplan.resolved ht hrelationship
    hcondition
  rw [hside] at hpath
  obtain ⟨unloaded, ran, answers, found, hloading, hanswered⟩ :=
    Fetching.returns_parentSide (fun store => store.records = g.store.records)
      (fun ids u rs u' hsame hrun => selects_of_returns_fetch hbase hpath hfiled hsame hrun)
      hside (hg.fetchable hnodup hmembers _)
      (fun m hm => hplan.ownKey hg.registry hside ht (htypes m hm)) rfl h
  exact ⟨entityType, c, unloaded, ran, answers, found, hbase, hloading, hanswered⟩

/-- Without a copied query, members that do not hold the foreign key ask by foreign key for
records of the bundle of the one far type. -/
theorem returns_childSide (hg : g.WellFormed) (hfiled : g.store.Filed)
    (hplan : Planned g.registry s t name none plan) (hside : plan.resolved.side = .child)
    (ht : g.registry.get t.name = .ok t) (hnodup : members.Nodup)
    (hmembers : ∀ m ∈ members, g.HasModel m) (hids : g.DistinctIds members)
    (h : Returns (childSide plan members) g () g') :
    ∃ far unloaded ran answers found owners,
      plan.resolved.farTypes = [far.name] ∧ g.registry.get far.name = .ok far ∧
      plan.query = ModelQuery.ofType far ∧
      (∀ id m, owners.get? id = some m ↔ m ∈ members ∧ (g.model m).record.id = some id) ∧
      Loading plan members g unloaded ran g' answers found
        (childPairs plan ran owners found.values) ∧
      Answered plan (fun store => store.records = g.store.records)
        (Selects g.store far.entityType [.eq bundleField (.text far.bundle)]
          plan.resolved.foreignKey.path) g ran owners.keys answers := by
  obtain ⟨relationship, q, hrelationship, hq, hcondition, hquery⟩ := hplan.declared
  obtain ⟨far, hfars, hfar, rfl⟩ :=
    Registry.relationshipQuery_of_child hg.registry hplan.resolved hside ht hrelationship hq
  have hbase : plan.query.query =
      Query.ofBase far.entityType [.eq bundleField (.text far.bundle)] := by
    rw [hquery]
    rfl
  have hpath := Registry.relationshipCondition_eq hg.registry hplan.resolved ht hrelationship
    hcondition
  rw [hside] at hpath
  obtain ⟨unloaded, ran, answers, found, owners, howners, hloading, hanswered⟩ :=
    Fetching.returns_childSide (fun store => store.records = g.store.records)
      (fun ids u rs u' hsame hrun => selects_of_returns_fetch hbase hpath hfiled hsame hrun)
      hside (hg.fetchable hnodup hmembers _) hids rfl h
  exact ⟨far, unloaded, ran, answers, found, owners, hfars, hfar, hquery, howners, hloading,
    hanswered⟩

end Planned

end Fetching

end RecordGraph
