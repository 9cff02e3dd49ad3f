/-
# What the store in memory answers

The store files every record under its own entity type and identifier, and every call keeps it
so. A query that no range cuts and no access policy rewrites therefore answers exactly the
records of its entity type that meet what it asks, in the order of its sort orders.
-/
import RecordGraph.Proofs.OrderedMaps
import RecordGraph.Proofs.QueryMeaning
import RecordGraph.Proofs.Sorting
import RecordGraph.Proofs.Steps
import RecordGraph.Store.Memory

namespace RecordGraph

namespace MemoryStore

/-- Every record is filed under its own entity type and identifier. -/
def Filed (s : MemoryStore) : Prop :=
  ∀ entityType id r, (s.recordsOf entityType).get? id = some r →
    r.id = some id ∧ r.entityType = entityType

/-- The records of an entity type are among all records. -/
theorem exists_of_get?_recordsOf {s : MemoryStore} {entityType id : String} {r : Record}
    (h : (s.recordsOf entityType).get? id = some r) :
    ∃ byId ∈ s.records.values, byId.get? id = some r := by
  unfold recordsOf at h
  cases hbyId : s.records.get? entityType with
  | none => simp [hbyId] at h
  | some byId =>
      rw [hbyId, Option.getD_some] at h
      exact ⟨byId, OrderedMap.mem_values_iff.mpr ⟨entityType, hbyId⟩, h⟩

/-! ## Every call keeps records filed -/

theorem filed_empty : empty.Filed := by
  intro entityType id r h
  simp [recordsOf, empty] at h

/-- Only what the store holds matters. -/
theorem Filed.of_records {s s' : MemoryStore} (h : s.Filed) (hrecords : s'.records = s.records) :
    s'.Filed := by
  unfold Filed recordsOf
  rw [hrecords]
  exact h

/-- The records of all entity types but one are kept, and those of this one are filed. -/
theorem Filed.insert {s s' : MemoryStore} {entityType : String} {byId : OrderedMap String Record}
    (h : s.Filed) (hrecords : s'.records = s.records.insert entityType byId)
    (hbyId : ∀ id r, byId.get? id = some r → r.id = some id ∧ r.entityType = entityType) :
    s'.Filed := by
  intro other id r hget
  rw [recordsOf, hrecords, OrderedMap.get?_insert] at hget
  split at hget
  · rename_i hsame
    subst hsame
    exact hbyId id r hget
  · exact h other id r hget

/-- Putting a record files it under the identifier that it has or gets. -/
theorem put_eq (s : MemoryStore) (r : Record) : ∃ id, (s.put r).1 = r.withId id ∧
    (s.put r).2.records =
      s.records.insert r.entityType ((s.recordsOf r.entityType).insert id (r.withId id)) := by
  cases hid : r.id with
  | some id =>
      refine ⟨id, ?_, ?_⟩
      · simp [put, hid]
      · simp [put, hid]
  | none =>
      refine ⟨toString (freeId (s.recordsOf r.entityType) (s.recordsOf r.entityType).size s.lastId),
        ?_, ?_⟩
      · simp [put, hid]
      · simp [put, hid]

theorem Filed.put {s : MemoryStore} (h : s.Filed) (r : Record) : (s.put r).2.Filed := by
  obtain ⟨id, -, hrecords⟩ := s.put_eq r
  refine h.insert hrecords fun other found hget => ?_
  rw [OrderedMap.get?_insert] at hget
  split at hget
  · rename_i hsame
    obtain rfl := Option.some.inj hget
    exact ⟨congrArg some hsame, rfl⟩
  · exact h r.entityType other found hget

theorem Filed.seed {s : MemoryStore} (h : s.Filed) (r : Record) : (s.seed r).2.Filed :=
  h.put r

theorem Filed.save {s : MemoryStore} (h : s.Filed) (r : Record) : (MemoryStore.save r s).2.Filed :=
  (h.put r).of_records rfl

theorem Filed.delete {s : MemoryStore} (h : s.Filed) (r : Record) :
    (MemoryStore.delete r s).2.Filed := by
  unfold MemoryStore.delete
  cases hid : r.id with
  | none => exact h
  | some id =>
      cases hrecords : s.records.get? r.entityType with
      | none => exact h.of_records rfl
      | some byId =>
          refine h.insert rfl fun other found hget => ?_
          rw [OrderedMap.get?_erase] at hget
          split at hget
          · simp at hget
          · refine h r.entityType other found ?_
            rw [recordsOf, hrecords]
            exact hget

/-- All other calls leave the records alone. -/
theorem records_execute (q : StoreQuery) (s : MemoryStore) :
    (execute q s).2.records = s.records := by
  unfold execute
  split
  · rfl
  · rfl

/-! ## Queries -/

theorem slice_map {α β : Type} (q : StoreQuery) (f : α → β) (xs : List α) :
    q.slice (xs.map f) = (q.slice xs).map f := by
  unfold StoreQuery.slice
  cases q.range with
  | none => rfl
  | some range => simp only [List.map_take, List.map_drop]

theorem mem_of_mem_slice {α : Type} {q : StoreQuery} {x : α} {xs : List α}
    (h : x ∈ q.slice xs) : x ∈ xs := by
  unfold StoreQuery.slice at h
  cases hrange : q.range with
  | none => simpa [hrange] using h
  | some range =>
      rw [hrange] at h
      exact List.mem_of_mem_drop (List.mem_of_mem_take h)

theorem mem_recordsOf_of_mem_select {s : MemoryStore} {q : StoreQuery} {r : Record}
    (h : r ∈ s.select q) : r ∈ (s.recordsOf q.entityType).values := by
  rw [select, List.mem_mergeSort] at h
  exact (List.mem_filter.mp h).1

/-- The records that a query asks for, in its order, its range left out of account. -/
def answersTo (s : MemoryStore) (q : Query) : List Record :=
  ((s.recordsOf q.entityType).values.filter q.meets).mergeSort (Record.precedes q.sorts.entries)

theorem mem_answersTo {s : MemoryStore} {q : Query} {r : Record} :
    r ∈ s.answersTo q ↔ r ∈ (s.recordsOf q.entityType).values ∧ q.meets r = true := by
  rw [answersTo, List.mem_mergeSort, List.mem_filter]

/-- The records of an entity type under the identifiers that a store query is answered with. -/
def returned (s : MemoryStore) (entityType : String) (q : StoreQuery) : List Record :=
  (q.slice ((s.select q).filterMap Record.id)).filterMap (s.recordsOf entityType).get?

theorem returned_of_records {s s' : MemoryStore} (h : s'.records = s.records) :
    s'.returned = s.returned := by
  funext entityType q
  rw [returned, returned, select, select, recordsOf, recordsOf, recordsOf, recordsOf, h]

/-- A query that selects is answered by the identifiers of what it selects, cut to its range. -/
theorem execute_of_selects {q : StoreQuery} (h : q.countOnly = false) (s : MemoryStore) :
    execute q s = (.ok (q.slice ((s.select q).filterMap Record.id)), (execute q s).2) := by
  rw [execute, if_neg (by simp [h])]

/-- A query that is answered is noted, and selects what the store holds. -/
theorem of_execute_eq_ok {s s' : MemoryStore} {q : StoreQuery} {ids : List String}
    (h : execute q s = (.ok ids, s')) : s'.records = s.records ∧
      s'.executed = s.executed ++ [q] ∧ ids = q.slice ((s.select q).filterMap Record.id) := by
  unfold execute at h
  split at h
  · simp at h
  · obtain ⟨hids, rfl⟩ := Prod.mk.inj h
    exact ⟨rfl, rfl, (Except.ok.inj hids).symm⟩

/-- The store in memory in a form in which its answers can be evaluated. -/
@[reducible]
def brief : RecordStore MemoryStore :=
  { (inferInstance : RecordStore MemoryStore) with
    execute := fun q s =>
      if q.countOnly then (.error (.store .countQuery), s)
      else
        (.ok (q.slice ((sortBriefly (Record.precedes q.sorts)
            ((s.recordsOf q.entityType).values.filter q.root.holds)).filterMap Record.id)),
          { s.note q with calls := { s.calls with queries := s.calls.queries + 1 } }) }

theorem brief_eq : brief = (inferInstance : RecordStore MemoryStore) := by
  simp only [brief, sortBriefly_eq]
  rfl

/-- Filed records are found again by their identifiers. -/
theorem Filed.filterMap_get? {s : MemoryStore} (h : s.Filed) {entityType : String}
    {rs : List Record} (hrs : ∀ r ∈ rs, r ∈ (s.recordsOf entityType).values) :
    (rs.filterMap Record.id).filterMap (s.recordsOf entityType).get? = rs := by
  induction rs with
  | nil => rfl
  | cons r rest ih =>
      obtain ⟨id, hget⟩ := OrderedMap.mem_values_iff.mp (hrs r (by simp))
      rw [List.filterMap_cons_some (h entityType id r hget).1, List.filterMap_cons_some hget,
        ih fun other hother => hrs other (by simp [hother])]

/-- Filed records all have identifiers. -/
theorem Filed.filterMap_id {s : MemoryStore} (h : s.Filed) {entityType : String}
    {rs : List Record} (hrs : ∀ r ∈ rs, r ∈ (s.recordsOf entityType).values) :
    rs.filterMap Record.id = rs.map fun r => r.id.getD "" := by
  rw [← List.filterMap_eq_map]
  refine List.filterMap_congr fun r hr => ?_
  obtain ⟨id, hget⟩ := OrderedMap.mem_values_iff.mp (hrs r hr)
  simp [(h entityType id r hget).1]

/-- Filed records of an entity type are told apart by their identifiers. -/
theorem Filed.eq_of_id {s : MemoryStore} (h : s.Filed) {entityType id : String} {a b : Record}
    (ha : a ∈ (s.recordsOf entityType).values) (hb : b ∈ (s.recordsOf entityType).values)
    (haid : a.id = some id) (hbid : b.id = some id) : a = b := by
  obtain ⟨i, hi⟩ := OrderedMap.mem_values_iff.mp ha
  obtain ⟨j, hj⟩ := OrderedMap.mem_values_iff.mp hb
  rw [(h entityType i a hi).1, Option.some.injEq] at haid
  rw [(h entityType j b hj).1, Option.some.injEq] at hbid
  rw [haid] at hi
  rw [hbid] at hj
  exact Option.some.inj (hi.symm.trans hj)

/-- A query brings back the records that it selects, cut to its range. -/
theorem Filed.returned_eq {s : MemoryStore} (h : s.Filed) (q : StoreQuery) :
    s.returned q.entityType q = q.slice (s.select q) := by
  have hstored : ∀ r ∈ s.select q, r ∈ (s.recordsOf q.entityType).values := fun r hr =>
    mem_recordsOf_of_mem_select hr
  have hcut : ∀ r ∈ q.slice (s.select q), r ∈ (s.recordsOf q.entityType).values := fun r hr =>
    hstored r (mem_of_mem_slice hr)
  rw [returned, h.filterMap_id hstored, slice_map, ← h.filterMap_id hcut]
  exact h.filterMap_get? hcut

end MemoryStore

namespace Query

/-- The query is neither cut to a range nor meant for an access policy. -/
structure Plain (q : Query) : Prop where
  range : q.range = none
  accessPolicy : q.accessPolicy = none
  untagged : accessPolicyTag ∉ q.tags

theorem Plain.addBase {q : Query} (h : q.Plain) (c : Condition) : (q.addBase c).Plain :=
  ⟨h.range, h.accessPolicy, h.untagged⟩

/-- The query is not meant for an access policy. -/
structure Unguarded (q : Query) : Prop where
  accessPolicy : q.accessPolicy = none
  untagged : accessPolicyTag ∉ q.tags

theorem Plain.unguarded {q : Query} (h : q.Plain) : q.Unguarded :=
  ⟨h.accessPolicy, h.untagged⟩

/-- A built query selects, as only counting makes it count, and keeps all else that is said of
what it selects. -/
theorem kept_of_build {q : Query} {built : StoreQuery} (h : q.build = .ok built) :
    built.entityType = q.entityType ∧ built.sorts = q.sorts.entries ∧ built.range = q.range ∧
      built.accessPolicy = q.accessPolicy ∧ built.countOnly = false := by
  unfold Query.build at h
  rw [except_bind_eq_ok] at h
  obtain ⟨root, -, hanswer⟩ := h
  simp only [except_pure_eq_ok, StoreQuery.foldl_addTag] at hanswer
  subst hanswer
  cases hpolicy : q.accessPolicy with
  | none => exact ⟨rfl, rfl, rfl, rfl, rfl⟩
  | some policy => exact ⟨rfl, rfl, rfl, rfl, rfl⟩

/-- A built query selects what its query asks for. -/
theorem select_of_build {q : Query} {built : StoreQuery} (h : q.build = .ok built)
    (store : MemoryStore) : store.select built = store.answersTo q := by
  obtain ⟨hentity, hsorts, -⟩ := kept_of_build h
  rw [MemoryStore.select, MemoryStore.answersTo, hentity, hsorts, funext (holds_root_eq_meets h)]

/-- An unguarded query does not reach an access policy. -/
theorem Unguarded.hasTag_of_build {q : Query} {built : StoreQuery} (hq : q.Unguarded)
    (h : q.build = .ok built) : built.hasTag accessPolicyTag = false := by
  unfold Query.build at h
  rw [except_bind_eq_ok] at h
  obtain ⟨root, -, hanswer⟩ := h
  simp only [hq.accessPolicy, except_pure_eq_ok, StoreQuery.foldl_addTag] at hanswer
  subst hanswer
  rw [StoreQuery.hasTag, ← Bool.not_eq_true, List.contains_iff_mem,
    StoreQuery.mem_foldl_insertText]
  simpa [StoreQuery.new] using hq.untagged

/-- On the store in memory a query leads to one that is noted: the built one, unless an access
policy has rewritten it. What comes back are the records under the identifiers that it is
answered with. -/
theorem exists_noted {q : Query} {s : Session} {g g' : Graph MemoryStore} {rs : List Record}
    (h : Returns (q.fetch s) g rs g') : ∃ built noted, q.build = .ok built ∧
      (q.accessPolicy = none → noted = built) ∧ g'.store.records = g.store.records ∧
      g'.store.executed = g.store.executed ++ [noted] ∧
      rs = g.store.returned q.entityType noted := by
  simp only [fetch, fetchIds, Session.execute, returns_bind, returns_ofExcept, and_assoc,
    exists_eq_left] at h
  obtain ⟨ids, afterQuery, ⟨built, hbuilt, noted, between, hnoted, hexecute⟩, h⟩ := h
  obtain rfl := Session.returns_prepare hnoted
  obtain ⟨store, hcall, rfl⟩ := returns_call.mp hexecute
  obtain ⟨hrecords, hexecuted, hids⟩ := MemoryStore.of_execute_eq_ok hcall
  refine ⟨built, noted, hbuilt, fun hpolicy => ?_, ?_⟩
  · cases htag : built.hasTag accessPolicyTag with
    | false => exact ((Session.returns_prepare_of_untagged htag).mp hnoted).2
    | true =>
        -- a tagged query that names no policy is refused
        rw [Session.prepare, if_pos htag, (kept_of_build hbuilt).2.2.2.1, hpolicy] at hnoted
        exact absurd hnoted returns_throw
  · rw [MemoryStore.returned, ← hids]
    split at h
    · rename_i hempty
      obtain ⟨rfl, rfl⟩ := returns_pure.mp h
      rw [List.isEmpty_iff.mp hempty]
      exact ⟨hrecords, hexecuted, rfl⟩
    · obtain ⟨after, hload, rfl⟩ := returns_call.mp h
      obtain ⟨hrs, rfl⟩ := Prod.mk.inj hload
      refine ⟨hrecords, hexecuted, ?_⟩
      rw [← Except.ok.inj hrs, MemoryStore.recordsOf, hrecords, MemoryStore.recordsOf]

/-- On the store in memory such a query answers what it asks for, and leaves the records as they
are. -/
theorem Plain.returns_fetch {q : Query} (hplain : q.Plain) {s : Session}
    {g g' : Graph MemoryStore} {rs : List Record} (hfiled : g.store.Filed)
    (h : Returns (q.fetch s) g rs g') :
    g'.store.records = g.store.records ∧ rs = g.store.answersTo q := by
  obtain ⟨built, noted, hbuilt, hnoted, hrecords, -, rfl⟩ := exists_noted h
  obtain rfl := hnoted hplain.accessPolicy
  obtain ⟨hentity, -, hrange, -⟩ := kept_of_build hbuilt
  refine ⟨hrecords, ?_⟩
  rw [← hentity, hfiled.returned_eq, StoreQuery.slice, hrange, hplain.range,
    select_of_build hbuilt]

/-- On the store in memory such a query is answered if it can be built. -/
theorem Plain.succeeds_fetch {q : Query} (hplain : q.Plain) {built : StoreQuery}
    (hbuilt : q.build = .ok built) (s : Session) (g : Graph MemoryStore) :
    Succeeds (q.fetch s) g := by
  have huntagged := hplain.unguarded.hasTag_of_build hbuilt
  have hexecute := MemoryStore.execute_of_selects (kept_of_build hbuilt).2.2.2.2 g.store
  have hids : Succeeds (q.fetchIds s) g :=
    ⟨_, _, returns_bind.mpr ⟨built, g, returns_ofExcept.mpr ⟨rfl, hbuilt⟩,
      returns_bind.mpr ⟨built, g, (Session.returns_prepare_of_untagged huntagged).mpr ⟨rfl, rfl⟩,
        returns_call.mpr ⟨_, hexecute, rfl⟩⟩⟩⟩
  refine hids.bind fun ids t _ => ?_
  split
  · exact succeeds_pure [] t
  · exact ⟨_, _, returns_call.mpr ⟨_, rfl, rfl⟩⟩

/-- The query for the records of an entity type that meet conditions of its owner. -/
def ofBase (entityType : String) (cs : List Condition) : Query :=
  { new entityType with baseConditions := cs }

theorem addBase_ofBase (entityType : String) (cs : List Condition) (c : Condition) :
    (ofBase entityType cs).addBase c = ofBase entityType (cs ++ [c]) := rfl

theorem plain_ofBase (entityType : String) (cs : List Condition) : (ofBase entityType cs).Plain :=
  ⟨rfl, rfl, by simp [ofBase, new]⟩

variable {entityType : String} {cs : List Condition} {built : StoreQuery}

theorem meets_ofBase (r : Record) :
    (ofBase entityType cs).meets r = true ↔ ∀ c ∈ cs, c.holds r = true := by
  simp [meets, ofBase, new, callerLogic, Except.toOption]

/-- Sound conditions of the owner can always be built. -/
theorem exists_build_ofBase (entityType : String) (hsound : ∀ c ∈ cs, c.fault? = none) :
    ∃ built, (ofBase entityType cs).build = .ok built := by
  have hbase : ∀ start : PredicateGroup, ∃ root,
      cs.foldlM (fun root c => c.applyOn root) start = Except.ok root := by
    induction cs with
    | nil => exact fun start => ⟨start, rfl⟩
    | cons c rest ih =>
        intro start
        have happly : c.applyOn start = .ok (start.add c.toPredicate) := by
          simp [Condition.applyOn, Condition.validate, hsound c (by simp)]
        obtain ⟨root, hroot⟩ := ih (fun d hd => hsound d (by simp [hd])) (start.add c.toPredicate)
        exact ⟨root, by rw [List.foldlM_cons, happly]; exact hroot⟩
  obtain ⟨root, hroot⟩ := hbase (PredicateGroup.empty .and)
  have hbuilt : (ofBase entityType cs).buildRoot = .ok root := by
    rw [buildRoot, except_bind_eq_ok]
    exact ⟨root, hroot, rfl⟩
  refine ⟨{ StoreQuery.new entityType with root := root }, ?_⟩
  rw [build, hbuilt]
  rfl

theorem holds_root_ofBase (h : (ofBase entityType cs).build = .ok built) (r : Record) :
    built.root.holds r = true ↔ ∀ c ∈ cs, c.holds r = true := by
  rw [holds_root_eq_meets h, meets_ofBase]

/-- On the store in memory such a query answers exactly the records that meet the conditions,
and leaves the records as they are. -/
theorem returns_fetch_ofBase {s : Session} {g g' : Graph MemoryStore} {rs : List Record}
    (hfiled : g.store.Filed) (h : Returns ((ofBase entityType cs).fetch s) g rs g') :
    g'.store.records = g.store.records ∧
      ∀ r, r ∈ rs ↔ r ∈ (g.store.recordsOf entityType).values ∧ ∀ c ∈ cs, c.holds r = true := by
  obtain ⟨hrecords, rfl⟩ := (plain_ofBase entityType cs).returns_fetch hfiled h
  refine ⟨hrecords, fun r => ?_⟩
  rw [MemoryStore.mem_answersTo, meets_ofBase]
  rfl

/-- On the store in memory such a query is always answered. -/
theorem succeeds_fetch_ofBase (hsound : ∀ c ∈ cs, c.fault? = none) (s : Session)
    (g : Graph MemoryStore) : Succeeds ((ofBase entityType cs).fetch s) g := by
  obtain ⟨built, hbuilt⟩ := exists_build_ofBase entityType hsound
  exact (plain_ofBase entityType cs).succeeds_fetch hbuilt s g

end Query

end RecordGraph
