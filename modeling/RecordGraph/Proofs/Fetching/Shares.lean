/-
# What a fetch loads for each member

A member that holds the foreign key gets the records under its identifiers that the query
yields. A member that does not hold it gets its share of the selection for all members: the
records that refer to it. Both are told from the state before the fetch, for any query that a
caller has copied onto the relationship's, and only the order of a share may depend on how the
identifiers were cut into batches.
-/
import RecordGraph.Proofs.Fetching.Children
import RecordGraph.Proofs.Fetching.Parents
import RecordGraph.Proofs.Fetching.Selections

namespace RecordGraph

variable {σ : Type}

/-! ## The records that are loaded -/

namespace Graph

/-- The record of the parent that a model has loaded under a name. -/
def loadedParents (g : Graph σ) (m : Model) (name : String) : List Record :=
  ((g.model m).parents.get? name).toList.map fun p => (g.model p).record

/-- The records of the collection that a model has loaded under a name, in order. -/
def loadedChildren (g : Graph σ) (m : Model) (name : String) : List Record :=
  match (g.model m).children.get? name with
  | some c => (g.collection c).members.values.map fun x => (g.model x).record
  | none => []

/-- The records of all that a model has loaded under a name, in order. -/
def loaded (g : Graph σ) (m : Model) (name : String) : List Record :=
  g.loadedParents m name ++ g.loadedChildren m name

/-- The records of the unsaved models that a model has loaded in a collection, in order. -/
def pendingRecords (g : Graph σ) (m : Model) (name : String) : List Record :=
  (g.unsavedChildren m name).map fun x => (g.model x).record

variable {g g' : Graph σ} {members : List Model} {m : Model} {name : String}

theorem Spares.record (h : g.Spares g' members) (hm : g.HasModel m) :
    (g'.model m).record = (g.model m).record := by
  rw [h.model m hm]

/-- A parent that stays loaded has the record that it had. -/
theorem loadedParents_of_spares (hg : g.WellFormed) (h : g.Spares g' members) (hm : g.HasModel m)
    (hsame : (g'.model m).parents.get? name = (g.model m).parents.get? name) :
    g'.loadedParents m name = g.loadedParents m name := by
  rw [loadedParents, loadedParents, hsame]
  apply List.map_congr_left
  intro p hp
  exact h.record (hg.parents m name p hm (Option.mem_toList.mp hp))

/-- A collection that stays loaded has the records that it had. -/
theorem loadedChildren_of_spares (hg : g.WellFormed) (h : g.Spares g' members) (hm : g.HasModel m)
    (hsame : (g'.model m).children.get? name = (g.model m).children.get? name) :
    g'.loadedChildren m name = g.loadedChildren m name := by
  rw [loadedChildren, loadedChildren, hsame]
  cases hc : (g.model m).children.get? name with
  | none => rfl
  | some c =>
      have hthere := hg.children m name c hm hc
      simp only [h.collection c hthere]
      apply List.map_congr_left
      intro x hx
      obtain ⟨key, hkey⟩ := OrderedMap.mem_values_iff.mp hx
      exact h.record (hg.members c key x hthere hkey)

/-- Members that are left out keep what they have loaded. -/
theorem loaded_of_spares (hg : g.WellFormed) (h : g.Spares g' members) (hm : g.HasModel m)
    (hout : m ∉ members) : g'.loaded m name = g.loaded m name := by
  have hsame := h.others m hm hout
  rw [loaded, loadedParents_of_spares hg h hm (by rw [hsame]),
    loadedChildren_of_spares hg h hm (by rw [hsame]), ← loaded]

theorem unsavedChildren_of_spares (hg : g.WellFormed) (h : g.Spares g' members)
    (hm : g.HasModel m) (hout : m ∉ members) :
    g'.unsavedChildren m name = g.unsavedChildren m name := by
  rw [unsavedChildren, unsavedChildren, h.others m hm hout]
  cases hc : (g.model m).children.get? name with
  | none => rfl
  | some c =>
      have hthere := hg.children m name c hm hc
      simp only [h.collection c hthere]
      apply List.filter_congr
      intro x hx
      obtain ⟨key, hkey⟩ := OrderedMap.mem_values_iff.mp hx
      rw [h.record (hg.members c key x hthere hkey)]

theorem pendingRecords_of_spares (hg : g.WellFormed) (h : g.Spares g' members)
    (hm : g.HasModel m) (hout : m ∉ members) :
    g'.pendingRecords m name = g.pendingRecords m name := by
  rw [pendingRecords, pendingRecords, unsavedChildren_of_spares hg h hm hout]
  apply List.map_congr_left
  intro x hx
  exact h.record (hg.of_mem_unsavedChildren hm hx).1

end Graph

namespace Record

/-- Whether a foreign key of the record contains an identifier, if there is one. -/
def pointsTo (r : Record) (k : ForeignKey) (id : Option String) : Bool :=
  id.any fun id => id ∈ r.referenceIds k.field k.column

/-- The order of the records that refer to an identifier can be told without the others: the
sort orders rank all records, and those that refer to the identifier have the same key. -/
structure KeepsOrder (sorts : List (String × SortDirection)) (k : ForeignKey) (id : Option String)
    (rs : List Record) : Prop where
  ranked : Ranked sorts rs
  alike : ∀ a ∈ rs, ∀ b ∈ rs, a.pointsTo k id = true → b.pointsTo k id = true →
    a.valuesAt k.path = b.valuesAt k.path

/-- Keys of at most one value, a text, are the same where they refer to the same identifier. -/
theorem KeepsOrder.of_single_texts {sorts : List (String × SortDirection)} {k : ForeignKey}
    {rs : List Record} (hranked : Ranked sorts rs)
    (hsingle : ∀ r ∈ rs, (r.valuesAt k.path).length ≤ 1)
    (htexts : ∀ r ∈ rs, ∀ v ∈ r.valuesAt k.path, v.IsText) (id : Option String) :
    KeepsOrder sorts k id rs where
  ranked := hranked
  alike a ha b hb hida hidb := by
    have hkey : ∀ r ∈ rs, ∀ own, own ∈ r.referenceIds k.field k.column →
        r.valuesAt k.path = [.text own] := by
      intro r hr own hown
      have hmem := text_mem_of_mem_referenceIds (htexts r hr) hown
      obtain ⟨v, hv⟩ := List.length_eq_one_iff.mp
        (Nat.le_antisymm (hsingle r hr) (List.length_pos_of_mem hmem))
      rw [hv, List.mem_singleton] at hmem
      rw [hv, hmem]
    rw [pointsTo, Option.any_eq_true] at hida hidb
    obtain ⟨own, rfl, hown⟩ := hida
    obtain ⟨other, hsame, hother⟩ := hidb
    obtain rfl := Option.some.inj hsame
    rw [hkey a ha own (by simpa using hown), hkey b hb own (by simpa using hother)]

end Record

namespace Fetching

/-! ## What is expected -/

/-- Whether the query has a type for a record. -/
def Plan.wraps (plan : Plan) (r : Record) : Bool := (plan.query.wrapping.typeFor? r).isSome

/-- The record under an identifier, if the query yields a model for it. -/
def Plan.yieldFrom? (plan : Plan) (store : MemoryStore) (id : String) : Option Record :=
  ((store.recordsOf plan.query.query.entityType).get? id).filter fun r =>
    plan.query.query.meets r && plan.wraps r

/-- The records of a selection that fall to a member. -/
def Plan.share (plan : Plan) (g : Graph MemoryStore) (ids : List String) (m : Model) :
    List Record :=
  (plan.selection g.store ids).filter fun r =>
    plan.wraps r && r.pointsTo plan.resolved.foreignKey (g.model m).record.id

/-- What a member of a group has loaded after a fetch, as told from the state before it. -/
def Plan.expected (plan : Plan) (g : Graph MemoryStore) (group : List Model) (m : Model) :
    List Record :=
  let name := plan.resolved.name
  match plan.resolved.side with
  | .child =>
    g.loadedParents m name ++ (g.pendingRecords m name ++
      plan.share g (group.filterMap fun m => (g.model m).record.id) m)
  | .parent =>
    let yielded := fun ids => ids.filterMap (plan.yieldFrom? g.store)
    let ids := g.keyIds plan.resolved.foreignKey m
    if plan.keeps g m then g.loaded m name
    else if plan.resolved.cardinality = .single then
      (yielded ids).getLast?.toList ++ g.loadedChildren m name
    else g.loadedParents m name ++ (g.pendingRecords m name ++ yielded (distinct ids))

/-- A fetch for other members changes nothing about who keeps an unsaved parent. -/
theorem Plan.keeps_of_spares {plan : Plan} {g t : Graph σ} {done : List Model}
    (hg : g.WellFormed) (h : g.Spares t done) {m : Model} (hm : g.HasModel m) (hout : m ∉ done) :
    plan.keeps t m = plan.keeps g m := by
  rw [keeps, keeps, h.others m hm hout]
  cases hp : (g.model m).parents.get? plan.resolved.name with
  | none => rfl
  | some p => rw [Option.any_some, Option.any_some, h.record (hg.parents m _ p hm hp)]

/-- A fetch for other members changes nothing about what is expected. -/
theorem Plan.expected_of_spares {plan : Plan} {g t : Graph MemoryStore} {done group : List Model}
    (hg : g.WellFormed) (h : g.Spares t done) (hrecords : t.store.records = g.store.records)
    (hgroup : ∀ m ∈ group, g.HasModel m ∧ m ∉ done) {m : Model} (hm : m ∈ group) :
    plan.expected t group m = plan.expected g group m := by
  obtain ⟨hthere, hout⟩ := hgroup m hm
  have hsame := h.others m hthere hout
  have hids : group.filterMap (fun m => (t.model m).record.id) =
      group.filterMap fun m => (g.model m).record.id := by
    apply List.filterMap_congr
    intro n hn
    rw [h.record (hgroup n hn).1]
  have hof : ∀ entityType, t.store.recordsOf entityType = g.store.recordsOf entityType := by
    intro entityType
    rw [MemoryStore.recordsOf, hrecords, MemoryStore.recordsOf]
  have hselection : ∀ ids, plan.selection t.store ids = plan.selection g.store ids := by
    intro ids
    rw [selection, selection, MemoryStore.answersTo, MemoryStore.answersTo, hof]
  have hyield : plan.yieldFrom? t.store = plan.yieldFrom? g.store := by
    funext id
    rw [yieldFrom?, yieldFrom?, hof]
  have hkeeps : plan.keeps t m = plan.keeps g m := keeps_of_spares hg h hthere hout
  have hparents : t.loadedParents m plan.resolved.name = g.loadedParents m plan.resolved.name :=
    Graph.loadedParents_of_spares hg h hthere (by rw [hsame])
  have hchildren : t.loadedChildren m plan.resolved.name = g.loadedChildren m plan.resolved.name :=
    Graph.loadedChildren_of_spares hg h hthere (by rw [hsame])
  simp only [expected, share, hids, hselection, hyield, hkeeps, hparents, hchildren, hsame,
    Graph.loaded, Graph.keyIds, Graph.pendingRecords_of_spares hg h hthere hout]

/-! ## What is found -/

variable {plan : Plan} {g unloaded ran g' : Graph MemoryStore} {members : List Model}
  {answers : List Record} {found owners : OrderedMap String Model}
  {pairs : List (Model × Model)} {ids : List String} {m : Model}

/-- The answers are those of all batches together. -/
theorem Answered.eq_flatMap {Stored : MemoryStore → Prop} {answer : List String → List Record}
    (h : Answered plan Stored (fun ids rs => rs = answer ids) g ran ids answers) :
    answers = (batches ((g.session plan.session).config.fetchBatchSize.getD ids.length)
      ids).flatMap answer := by
  have hmapped : ∀ {asked : List (List String)} {answered : List (List Record)},
      List.Forall₂ (fun ids rs => rs = answer ids) asked answered →
        answered = asked.map answer := by
    intro asked answered hall
    induction hall with
    | nil => rfl
    | cons hfirst _ ih => rw [List.map_cons, hfirst, ih]
  obtain ⟨answered, rfl, hbatches⟩ := h.byBatch
  rw [hmapped hbatches, List.flatMap_def]

/-- Models are found under their keys. -/
theorem Found.keys_eq {wrapping : Wrapping} (h : Found g g' wrapping answers found) :
    found.keys = found.values.map fun x => (g'.model x).key := by
  rw [OrderedMap.keys, OrderedMap.values, List.map_map]
  apply List.map_congr_left
  intro e he
  have hget := OrderedMap.get?_eq_some_iff.mpr he
  exact ((h.wraps e.1 e.2 hget).2.2.key e.1 (h.record e.1 e.2 hget).2).symm

theorem Found.nodup_values {wrapping : Wrapping} (h : Found g g' wrapping answers found) :
    found.values.Nodup :=
  List.Nodup.of_map _ (h.keys_eq ▸ found.keys_nodup)

open scoped Classical in
/-- The records found are those of the answers that can be wrapped, each once. -/
theorem Found.records_eq {store : MemoryStore} {entityType : String} (hfiled : store.Filed)
    {wrapping : Wrapping} (h : Found g g' wrapping answers found)
    (hstored : ∀ r ∈ answers, r ∈ (store.recordsOf entityType).values) :
    found.values.map (fun x => (g'.model x).record) =
      distinct (answers.filter fun r => (wrapping.typeFor? r).isSome) := by
  have hkept : ∀ r ∈ answers.filter (fun r => (wrapping.typeFor? r).isSome),
      r ∈ (store.recordsOf entityType).values := fun r hr =>
    hstored r (List.mem_filter.mp hr).1
  have hinj : ∀ a ∈ answers.filter (fun r => (wrapping.typeFor? r).isSome),
      ∀ b ∈ answers.filter (fun r => (wrapping.typeFor? r).isSome), ∀ id,
        a.id = some id → b.id = some id → a = b := fun a ha b hb _ =>
    hfiled.eq_of_id (hkept a ha) (hkept b hb)
  -- each model is found under the identifier of its record
  have hread : found.keys.filterMap (store.recordsOf entityType).get? =
      found.values.map fun x => (g'.model x).record := by
    rw [OrderedMap.keys, OrderedMap.values, List.filterMap_map, List.map_map,
      ← List.filterMap_eq_map]
    apply List.filterMap_congr
    intro e he
    obtain ⟨hanswer, hid⟩ := h.record e.1 e.2 (OrderedMap.get?_eq_some_iff.mpr he)
    obtain ⟨i, hi⟩ := OrderedMap.mem_values_iff.mp (hstored _ hanswer)
    rw [(hfiled entityType i _ hi).1, Option.some.injEq] at hid
    show (store.recordsOf entityType).get? e.1 = some (g'.model e.2).record
    rw [← hid, hi]
  rw [← hread, h.keys, distinct_filterMap _ hinj]
  apply hfiled.filterMap_get?
  intro r hr
  exact hkept r (mem_distinct.mp hr)

/-- Under an identifier that was asked for stands the record that the query yields. -/
theorem Loading.record_under (hfiled : g.store.Filed) (hasks : plan.Asks idField)
    (h : Loading plan members g unloaded ran g' answers found pairs)
    (hanswers : ∀ r, r ∈ answers ↔ r ∈ plan.selection g.store ids) {id : String}
    (hid : id ∈ ids) :
    (found.get? id).map (fun x => (g'.model x).record) = plan.yieldFrom? g.store id := by
  apply h.record_of_answer hfiled
  · intro r hr
    rw [hanswers, Plan.mem_selection, hasks.meets_batchQuery] at hr
    exact ⟨(Plan.mem_stored.mp hr.1).1, hr.2.1⟩
  · intro r hstored hmeets
    rw [hanswers, Plan.mem_selection, hasks.meets_batchQuery, Plan.mem_stored]
    refine ⟨⟨OrderedMap.mem_values_iff.mpr ⟨id, hstored⟩, Query.base_of_meets hmeets⟩, hmeets,
      .text id, ?_, id, hid, ?_⟩
    · simp [Record.valuesAt, (hfiled _ id r hstored).1]
    · exact Value.looselyEqual_self_text id

/-! ## One side and the other -/

/-- The unsaved models of a member have no records under their keys. -/
def PendingApart (g : Graph MemoryStore) (m : Model) (name : String) : Prop :=
  ∀ x ∈ g.unsavedChildren m name, ∀ entityType,
    (g.store.recordsOf entityType).get? (g.model x).key = none

/-- A collection that was loaded has the records of the unsaved models that it had, and then
those of the far models that were handed over. -/
theorem Loading.loaded_of_many (hg : g.WellFormed) (hfiled : g.store.Filed)
    (h : Loading plan members g unloaded ran g' answers found pairs)
    (hstored : ∀ r ∈ answers, r ∈ plan.stored g.store) (hmembers : ∀ m ∈ members, g.HasModel m)
    (hm : m ∈ members) (hmany : plan.resolved.holdsSingle = false)
    (hapart : PendingApart g m plan.resolved.name) :
    g'.loaded m plan.resolved.name = g.loadedParents m plan.resolved.name ++
      (g.pendingRecords m plan.resolved.name ++
        (distinct ((pairs.filter fun pair => pair.1 = m).map Prod.snd)).map
          fun x => (ran.model x).record) := by
  obtain ⟨c, hc, hvalues, -⟩ := h.values_near hm hmany
    (hg.nodup_keys_unsavedChildren (hmembers m hm) _)
    fun x hx far hfar => h.key_ne_of_stored hfiled
      (fun r hr => (Plan.mem_stored.mp (hstored r hr)).1) (hapart x hx _) hfar
  have hparents : g'.loadedParents m plan.resolved.name = g.loadedParents m plan.resolved.name :=
    Graph.loadedParents_of_spares hg h.spares (hmembers m hm) (by rw [h.parents_of_many hm hmany])
  have hpending : (g.unsavedChildren m plan.resolved.name).map (fun x => (g'.model x).record) =
      g.pendingRecords m plan.resolved.name := by
    apply List.map_congr_left
    intro x hx
    exact h.spares.record (hg.of_mem_unsavedChildren (hmembers m hm) hx).1
  rw [Graph.loaded, hparents, Graph.loadedChildren, hc]
  simp only [hvalues]
  rw [List.map_append, hpending]
  simp only [h.handed.relinks.record]

/-- What a member gets that holds the foreign key. -/
theorem Loading.loaded_parentSide (hg : g.WellFormed) (hfiled : g.store.Filed)
    (hasks : plan.Asks idField) (hside : plan.resolved.side = .parent)
    {loading : List Model} (hmembers : ∀ m ∈ loading, g.HasModel m) (hnodup : loading.Nodup)
    (h : Loading plan loading g unloaded ran g' answers found (parentPairs plan g found loading))
    (hanswers : ∀ r, r ∈ answers ↔ r ∈ plan.selection g.store ids)
    (hm : m ∈ loading) (hids : ∀ id ∈ g.keyIds plan.resolved.foreignKey m, id ∈ ids)
    (hkeeps : plan.keeps g m = false) (hapart : PendingApart g m plan.resolved.name)
    {group : List Model} :
    g'.loaded m plan.resolved.name = plan.expected g group m := by
  have hread : ∀ some : List String, (∀ id ∈ some, id ∈ ids) →
      (some.filterMap found.get?).map (fun x => (g'.model x).record) =
        some.filterMap (plan.yieldFrom? g.store) := by
    intro some hsome
    rw [List.map_filterMap]
    apply List.filterMap_congr
    intro id hid
    exact h.record_under hfiled hasks hanswers (hsome id hid)
  simp only [Plan.expected, hside, hkeeps, Bool.false_eq_true, if_false]
  by_cases hsingle : plan.resolved.cardinality = .single
  · have hholds : plan.resolved.holdsSingle = true := by
      rw [Resolved.holdsSingle_of_parent hside, hsingle]
      rfl
    rw [if_pos hsingle, Graph.loaded, Graph.loadedParents, h.parents_near hm hholds,
      filter_parentPairs hnodup hm, ← hread _ hids, List.getLast?_map, Option.toList_map,
      Graph.loadedChildren_of_spares hg h.spares (hmembers m hm)
        (by rw [h.children_of_single hm hholds])]
  · have hmany : plan.resolved.holdsSingle = false := by
      rw [Resolved.holdsSingle_of_parent hside, decide_eq_false hsingle]
    have hstored : ∀ r ∈ answers, r ∈ plan.stored g.store := fun r hr =>
      (Plan.mem_selection.mp ((hanswers r).mp hr)).1
    -- no model is found under two identifiers
    have hinj : ∀ a ∈ g.keyIds plan.resolved.foreignKey m,
        ∀ b ∈ g.keyIds plan.resolved.foreignKey m, ∀ x,
          found.get? a = some x → found.get? b = some x → a = b := by
      intro a _ b _ x ha hb
      have hid := (h.finds.record a x ha).2
      rw [(h.finds.record b x hb).2, Option.some.injEq] at hid
      exact hid.symm
    rw [if_neg hsingle, h.loaded_of_many hg hfiled hstored hmembers hm hmany hapart,
      filter_parentPairs hnodup hm, distinct_filterMap _ hinj]
    simp only [← h.handed.relinks.record]
    rw [hread _ fun id hid => hids id (mem_distinct.mp hid)]

/-- The far models of a member that does not hold the foreign key are those that refer to it. -/
theorem Loading.distinct_childPairs
    (howners : ∀ id m, owners.get? id = some m ↔ m ∈ members ∧ (g.model m).record.id = some id)
    (h : Loading plan members g unloaded ran g' answers found
      (childPairs plan ran owners found.values)) (hm : m ∈ members) :
    distinct (((childPairs plan ran owners found.values).filter
        fun pair => pair.1 = m).map Prod.snd) =
      found.values.filter fun x =>
        (ran.model x).record.pointsTo plan.resolved.foreignKey (g.model m).record.id := by
  rw [childPairs, List.filter_flatMap, List.map_flatMap,
    distinct_flatMap_of_copies h.finds.nodup_values]
  · apply List.filter_congr
    intro x hx
    rw [Bool.eq_iff_iff, decide_eq_true_eq, Record.pointsTo, Option.any_eq_true]
    simp only [List.mem_map, List.mem_filter, List.mem_filterMap, howners, Graph.keyIds,
      decide_eq_true_eq]
    constructor
    · rintro ⟨_, ⟨⟨n, ⟨id, hid, -, hown⟩, rfl⟩, rfl⟩, -⟩
      exact ⟨id, hown, hid⟩
    · rintro ⟨id, hown, hid⟩
      exact ⟨(m, x), ⟨⟨m, ⟨id, hid, hm, hown⟩, rfl⟩, rfl⟩, rfl⟩
  · intro x hx y hy
    simp only [List.mem_map, List.mem_filter] at hy
    obtain ⟨_, ⟨⟨n, -, rfl⟩, -⟩, rfl⟩ := hy
    rfl

/-- What a member gets that does not hold the foreign key: its share of the selection, in the
order of the selection where this can be told from the share alone. -/
theorem Loading.loaded_childSide (hg : g.WellFormed) (hfiled : g.store.Filed)
    (hasks : plan.Asks plan.resolved.foreignKey.path) (hside : plan.resolved.side = .child)
    (hmembers : ∀ m ∈ members, g.HasModel m)
    (howners : ∀ id m, owners.get? id = some m ↔ m ∈ members ∧ (g.model m).record.id = some id)
    (h : Loading plan members g unloaded ran g' answers found
      (childPairs plan ran owners found.values)) {size : Nat}
    (hanswers : answers = (batches size owners.keys).flatMap (plan.selection g.store))
    (hm : m ∈ members) (hapart : PendingApart g m plan.resolved.name) :
    (g'.loaded m plan.resolved.name).Perm (plan.expected g members m) ∧
      (Record.KeepsOrder plan.query.query.sorts.entries plan.resolved.foreignKey
          (g.model m).record.id (plan.stored g.store) →
        g'.loaded m plan.resolved.name = plan.expected g members m) := by
  classical
  have hmem : ∀ r, r ∈ answers ↔ r ∈ plan.selection g.store owners.keys := by
    intro r
    rw [hanswers, hasks.mem_flatMap_batches]
  have hstored : ∀ r ∈ answers, r ∈ plan.stored g.store := fun r hr =>
    (Plan.mem_selection.mp ((hmem r).mp hr)).1
  have hkeys : ∀ id, id ∈ owners.keys ↔ id ∈ members.filterMap fun m => (g.model m).record.id := by
    intro id
    rw [← OrderedMap.contains_iff_mem_keys, OrderedMap.contains, Option.isSome_iff_exists,
      List.mem_filterMap]
    simp only [howners]
  have hselection : plan.selection g.store owners.keys =
      plan.selection g.store (members.filterMap fun m => (g.model m).record.id) :=
    hasks.selection_congr hkeys
  have hgets : (distinct (((childPairs plan ran owners found.values).filter
      fun pair => pair.1 = m).map Prod.snd)).map (fun x => (ran.model x).record) =
        distinct (answers.filter fun r =>
          plan.wraps r && r.pointsTo plan.resolved.foreignKey (g.model m).record.id) := by
    have hkept : ((found.values.map fun x => (ran.model x).record).filter fun r =>
        r.pointsTo plan.resolved.foreignKey (g.model m).record.id) =
          distinct ((answers.filter plan.wraps).filter fun r =>
            r.pointsTo plan.resolved.foreignKey (g.model m).record.id) := by
      rw [distinct_filter,
        h.finds.records_eq hfiled fun r hr => (Plan.mem_stored.mp (hstored r hr)).1]
      rfl
    rw [h.distinct_childPairs howners hm]
    rw [List.filter_map, List.filter_filter] at hkept
    simp only [Bool.and_comm (plan.wraps _)]
    exact hkept
  have hnodup : (plan.share g (members.filterMap fun m => (g.model m).record.id) m).Nodup :=
    (Plan.nodup_selection hfiled).filter _
  rw [h.loaded_of_many hg hfiled hstored hmembers hm (Resolved.holdsSingle_of_child hside) hapart,
    hgets]
  simp only [Plan.expected, hside]
  refine ⟨(List.Perm.append_left _ ?_).append_left _, fun horder => ?_⟩
  · rw [List.perm_ext_iff_of_nodup (nodup_distinct _) hnodup]
    intro r
    rw [mem_distinct, Plan.share, List.mem_filter, List.mem_filter, hmem, hselection]
  · rw [hanswers, hasks.distinct_flatMap_batches hfiled horder.ranked, hselection, Plan.share]
    intro a ha b hb hpa hpb
    rw [Bool.and_eq_true] at hpa hpb
    exact horder.alike a ha b hb hpa.2 hpb.2

end Fetching

end RecordGraph
