/-
# Loading children

A relationship whose far records hold the foreign key. The identifiers of all members go into
the batches together, and what comes back is told apart by the keys of the far records. Here
this is shown to lose nothing and to invent nothing on the store in memory: a member gets
exactly the far records whose key contains its identifier, each once, behind the unsaved
models that it held before.

Foreign keys are supposed to be texts. A key that is stored as a number compares with more
identifiers than the one that it is read as.
-/
import RecordGraph.Proofs.Fetching.Answers
import RecordGraph.Proofs.Upholding.Histories

namespace RecordGraph

/-- The value is a text. -/
def Value.IsText (v : Value) : Prop := ∃ text, v = .text text

instance (v : Value) : Decidable v.IsText :=
  match v with
  | .text text => .isTrue ⟨text, rfl⟩
  | .null | .bool _ | .int _ | .float _ | .list _ | .object _ =>
    .isFalse fun ⟨_, h⟩ => by cases h

/-- Where all values are texts, an identifier in a foreign key is one of them. -/
theorem Record.text_mem_of_mem_referenceIds {r : Record} {k : ForeignKey} {id : String}
    (htexts : ∀ v ∈ r.valuesAt k.path, v.IsText)
    (hid : id ∈ r.referenceIds k.field k.column) : Value.text id ∈ r.valuesAt k.path := by
  rw [referenceIds, List.mem_filterMap] at hid
  obtain ⟨v, hv, hread⟩ := hid
  obtain ⟨text, rfl⟩ := htexts v hv
  rw [Value.toId?] at hread
  split at hread
  · simp at hread
  · rw [← Option.some.inj hread]
    exact hv

namespace Fetching

variable {plan : Plan} {g unloaded ran g' : Graph MemoryStore} {members : List Model}
  {answers : List Record} {found owners : OrderedMap String Model}
  {pairs : List (Model × Model)} {m x : Model}

/-- A far model is handed to a member exactly when its key has the member's identifier. -/
theorem mem_map_snd_filter_childPairs {fars : List Model}
    (howners : ∀ id m, owners.get? id = some m ↔ m ∈ members ∧ (g.model m).record.id = some id)
    (hm : m ∈ members) :
    x ∈ ((childPairs plan ran owners fars).filter fun pair => pair.1 = m).map Prod.snd ↔
      x ∈ fars ∧ ∃ id, (g.model m).record.id = some id ∧
        id ∈ (ran.model x).record.referenceIds plan.resolved.foreignKey.field
          plan.resolved.foreignKey.column := by
  rw [mem_map_snd_filter, mem_childPairs]
  simp only [howners, hm, true_and, and_comm, Graph.keyIds]

/-- The models found are told apart by the identifiers of their records. -/
theorem Loading.nodup_ids (h : Loading plan members g unloaded ran g' answers found pairs)
    {fars : List Model} (hfars : ∀ x ∈ fars, x ∈ found.values) :
    ((distinct fars).map fun x => (g'.model x).record.id).Nodup := by
  refine List.Nodup.map_on (fun x hx y hy hsame => ?_) (nodup_distinct _)
  have hx := hfars x (mem_distinct.mp hx)
  have hy := hfars y (mem_distinct.mp hy)
  rw [h.handed.relinks.record, h.handed.relinks.record, (h.finds.get?_key hx).2,
    (h.finds.get?_key hy).2] at hsame
  exact h.finds.eq_of_key_eq hx hy (Option.some.inj hsame)

/-- The records handed to a member are those of the far type whose key, a text, contains the
identifier of the member. -/
theorem Loading.mem_records_iff {far : ModelType} {Stored : MemoryStore → Prop}
    (hfiled : g.store.Filed) (hquery : plan.query = ModelQuery.ofType far)
    (howners : ∀ id m, owners.get? id = some m ↔ m ∈ members ∧ (g.model m).record.id = some id)
    (h : Loading plan members g unloaded ran g' answers found
      (childPairs plan ran owners found.values))
    (hanswered : Answered plan Stored (Selects g.store far.entityType
      [.eq bundleField (.text far.bundle)] plan.resolved.foreignKey.path) g ran owners.keys answers)
    (htexts : ∀ r ∈ (g.store.recordsOf far.entityType).values,
      ∀ v ∈ r.valuesAt plan.resolved.foreignKey.path, v.IsText)
    (hm : m ∈ members) (r : Record) :
    r ∈ (distinct (((childPairs plan ran owners found.values).filter
        fun pair => pair.1 = m).map Prod.snd)).map (fun x => (g'.model x).record) ↔
      r ∈ (g.store.recordsOf far.entityType).values ∧
        (Condition.eq bundleField (.text far.bundle)).holds r = true ∧
        ∃ id, (g.model m).record.id = some id ∧
          id ∈ r.referenceIds plan.resolved.foreignKey.field plan.resolved.foreignKey.column := by
  simp only [List.mem_map, mem_distinct, mem_map_snd_filter_childPairs howners hm,
    h.handed.relinks.record]
  constructor
  · rintro ⟨x, ⟨hx, hid⟩, rfl⟩
    obtain ⟨hanswer, -⟩ := (h.found_iff hfiled hanswered).mp ⟨x, hx, rfl⟩
    obtain ⟨hstored, hmeets⟩ := hanswered.meets hanswer
    exact ⟨hstored, hmeets _ (by simp), hid⟩
  · rintro ⟨hstored, hbundle, id, hmid, hid⟩
    have hasked : id ∈ owners.keys := by
      rw [← OrderedMap.contains_iff_mem_keys, OrderedMap.contains,
        (howners id m).mpr ⟨hm, hmid⟩, Option.isSome_some]
    have hanswer : r ∈ answers := hanswered.mem_of_asked hstored (by simpa using hbundle) hasked
      (Record.text_mem_of_mem_referenceIds (htexts r hstored) hid)
    have htype : (plan.query.wrapping.typeFor? r).isSome = true := by
      rw [hquery]
      rfl
    obtain ⟨x, hx, rfl⟩ := (h.found_iff hfiled hanswered).mpr ⟨hanswer, htype⟩
    exact ⟨x, ⟨hx, id, hmid, hid⟩, rfl⟩

end Fetching

/-- What fetching children leaves on the store in memory. Every member has a collection: first
the unsaved models that it held before, in order, then `fetched`, which is also the snapshot.
The records of `fetched` are those of the far entity type that meet the condition on the far
bundle and whose foreign key contains the identifier of the member; none occurs twice. -/
theorem fetchRelationship_loads_children {g g' : Graph MemoryStore} {s : Session}
    {members : List Model} {typeName name : String} {resolved : Resolved} (hg : g.WellFormed)
    (hfiled : g.store.Filed) (hapart : g.PlaceholdersApart)
    (hmembers : ∀ m ∈ members, g.HasModel m) (hnodup : members.Nodup)
    (htypes : ∀ m ∈ members, (g.model m).modelType.name = typeName)
    (hids : g.DistinctIds members)
    (hresolved : g.registry.resolve typeName name = .ok resolved) (hside : resolved.side = .child)
    (htexts : ∀ farName ∈ resolved.farTypes, ∀ far, g.registry.get farName = .ok far →
      ∀ r ∈ (g.store.recordsOf far.entityType).values,
        ∀ v ∈ r.valuesAt resolved.foreignKey.path, v.IsText)
    (hfetch : Returns (fetchRelationship s members name none) g () g') :
    ∃ far, resolved.farTypes = [far.name] ∧ g.registry.get far.name = .ok far ∧
      ∀ m ∈ members, ∃ c fetched, (g'.model m).children.get? name = some c ∧
        (g'.collection c).members.values = g.unsavedChildren m name ++ fetched ∧
        (g'.collection c).snapshot.values = fetched ∧
        (fetched.map fun x => (g'.model x).record.id).Nodup ∧
        ∀ r, r ∈ fetched.map (fun x => (g'.model x).record) ↔
          r ∈ (g.store.recordsOf far.entityType).values ∧
            (Condition.eq bundleField (.text far.bundle)).holds r = true ∧
            ∃ id, (g.model m).record.id = some id ∧
              id ∈ r.referenceIds resolved.foreignKey.field resolved.foreignKey.column := by
  obtain ⟨far, hfars, hfar⟩ := Registry.exists_far_of_child hg.registry hresolved hside
  refine ⟨far, hfars, hfar, fun m hm => ?_⟩
  obtain ⟨t, plan, rfl, ht, -, hplan, rfl, -, hchild⟩ := Fetching.exists_planned_of_one_type hg
    (List.ne_nil_of_mem hm) hmembers htypes hresolved hfetch
  obtain ⟨queried, unloaded, ran, answers, found, owners, hqueried, hget, hquery, howners,
    hloading, hanswered⟩ := hplan.returns_childSide hg hfiled hside ht hnodup hmembers hids
      (hchild hside)
  obtain rfl : far = queried := by
    rw [hfars, List.cons.injEq] at hqueried
    rw [← hqueried.1] at hget
    exact Except.ok.inj (hfar.symm.trans hget)
  obtain ⟨c, hc, hvalues, hsnapshot⟩ := hloading.values_near hm
    (Resolved.holdsSingle_of_child hside) (hg.nodup_keys_unsavedChildren (hmembers m hm) _)
    fun x hx y hy => hloading.key_ne_of_unsaved hg hfiled hapart hmembers hanswered hm hx hy
  rw [hplan.name_eq hg.registry] at hc hvalues
  refine ⟨c, _, hc, hvalues, hsnapshot, hloading.nodup_ids fun x hx => ?_,
    hloading.mem_records_iff hfiled hquery howners hanswered
      (htexts far.name (by simp [hfars]) far hfar) hm⟩
  exact ((Fetching.mem_map_snd_filter_childPairs howners hm).mp hx).1

namespace Library

/-- One article is fetched for each author, and the unsaved one stays in front. -/
theorem stocked_articles :
    Returns (fetchRelationship session both "articles" none) authors () stocked ∧
    ∃ far, articles.farTypes = [far.name] ∧ authors.registry.get far.name = .ok far ∧
      ∀ m ∈ both, ∃ c fetched, (stocked.model m).children.get? "articles" = some c ∧
        (stocked.collection c).members.values = authors.unsavedChildren m "articles" ++ fetched ∧
        (stocked.collection c).snapshot.values = fetched ∧
        (fetched.map fun x => (stocked.model x).record.id).Nodup ∧
        ∀ r, r ∈ fetched.map (fun x => (stocked.model x).record) ↔
          r ∈ (authors.store.recordsOf far.entityType).values ∧
            (Condition.eq bundleField (.text far.bundle)).holds r = true ∧
            ∃ id, (authors.model m).record.id = some id ∧
              id ∈ r.referenceIds articles.foreignKey.field articles.foreignKey.column := by
  have hsound := reachable_authors.sound MemoryStore.keeps_filed
  have hresolved : authors.registry.resolve "author" "articles" = .ok articles :=
    eq_ok_of_isOk (by decide +kernel) default
  have htexts : ∀ byId ∈ authors.store.records.values, ∀ r ∈ byId.values,
      ∀ v ∈ r.valuesAt articles.foreignKey.path, v.IsText := by
    decide +kernel
  refine ⟨returns_stocked, fetchRelationship_loads_children hsound.wellFormed hsound.store
    (by decide +kernel) (by decide +kernel) (by decide +kernel) (by decide +kernel)
    (by decide +kernel) hresolved (by decide +kernel) ?_ returns_stocked⟩
  intro farName _ far _ r hr
  obtain ⟨id, hid⟩ := OrderedMap.mem_values_iff.mp hr
  obtain ⟨byId, hbyId, hget⟩ := MemoryStore.exists_of_get?_recordsOf hid
  exact htexts byId hbyId r (OrderedMap.mem_values_iff.mpr ⟨id, hget⟩)

end Library

end RecordGraph
