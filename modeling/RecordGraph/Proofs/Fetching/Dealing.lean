/-
# Dealing out what comes back

The store selects far records by comparing their values with the identifiers that are asked
for, and a text that spells a number compares with every other spelling of it. What comes back
is dealt to the members by the text of an identifier alone. Here this is told for one group, from
the records that come back, whatever query a caller has copied onto the relationship's: a member
gets the records that refer to it, or that it refers to, by the very text of the identifier. And
a record that compares no further than it reads is dealt to some member.
-/
import RecordGraph.Proofs.Fetching.Transparency

namespace RecordGraph

variable {σ : Type}

namespace Graph

/-- The records that a model has loaded for a relationship, in order. -/
def attached (g : Graph σ) (m : Model) (r : Resolved) : List Record :=
  match r.holdsSingle with
  | true => g.loadedParents m r.name
  | false => g.loadedChildren m r.name

theorem attached_of_spares {g g' : Graph σ} {members : List Model} {m : Model} {r : Resolved}
    (hg : g.WellFormed) (h : g.Spares g' members) (hm : g.HasModel m) (hout : m ∉ members) :
    g'.attached m r = g.attached m r := by
  have hsame := h.others m hm hout
  unfold attached
  cases r.holdsSingle with
  | true => exact loadedParents_of_spares hg h hm (by rw [hsame])
  | false => exact loadedChildren_of_spares hg h hm (by rw [hsame])

end Graph

/-- A filed record has an identifier. -/
theorem MemoryStore.Filed.isNew_of_mem {store : MemoryStore} (h : store.Filed)
    {entityType : String} {r : Record} (hr : r ∈ (store.recordsOf entityType).values) :
    r.isNew = false := by
  obtain ⟨id, hid⟩ := OrderedMap.mem_values_iff.mp hr
  rw [Record.isNew, (h entityType id r hid).1, Option.isNone_some]

namespace Fetching

/-! ## What is handed out -/

/-- The record of the answers that has an identifier, if the query has a type for it. -/
def Plan.answerUnder? (plan : Plan) (answers : List Record) (id : String) : Option Record :=
  answers.find? fun r => r.id = some id && plan.wraps r

/-- The answers that are handed to a member. A member that does not hold the foreign key gets
those that refer to it. A member that holds it gets those that it refers to, of which the last
one stays if there is room for one only; an unsaved parent is not replaced. -/
def Plan.dealt (plan : Plan) (g : Graph σ) (answers : List Record) (m : Model) : List Record :=
  match plan.resolved.side with
  | .child =>
    answers.filter fun r =>
      plan.wraps r && r.pointsTo plan.resolved.foreignKey (g.model m).record.id
  | .parent =>
    let named := (g.keyIds plan.resolved.foreignKey m).filterMap (plan.answerUnder? answers)
    if plan.keeps g m then []
    else if plan.resolved.cardinality = .single then named.getLast?.toList
    else named

/-- The path at which far records are compared with the identifiers that are asked for. -/
def Plan.path (plan : Plan) : String :=
  match plan.resolved.side with
  | .parent => idField
  | .child => plan.resolved.foreignKey.path

/-- The identifiers that are asked for on behalf of a member. -/
def Plan.asksFor (plan : Plan) (g : Graph σ) (m : Model) : List String :=
  match plan.resolved.side with
  | .parent => g.keyIds plan.resolved.foreignKey m
  | .child => (g.model m).record.id.toList

/-- A record can be told by the texts of identifiers, if the query has a type for it, if it
compares with an identifier that is asked for only where it reads as this identifier, and if the
members have room for all that they refer to. -/
structure Plan.Told (plan : Plan) (g : Graph σ) (group : List Model) (r : Record) : Prop where
  wraps : plan.wraps r = true
  reads : ∀ m ∈ group, ∀ id ∈ plan.asksFor g m, ∀ v ∈ r.valuesAt plan.path,
    v.looselyEqual (.text id) = true → v.toId? = some id
  room : plan.resolved.side = .parent → plan.resolved.cardinality = .single →
    ∀ m ∈ group, (g.keyIds plan.resolved.foreignKey m).length ≤ 1

/-- What becomes of the answers in a fetch from `g` to `g'`: each member has exactly the stored
records attached that are dealt to it, and every answer that can be told is attached to some
member, unless an access policy may have rewritten the query. -/
structure Plan.Deals (plan : Plan) (g g' : Graph σ) (group : List Model)
    (answers : List Record) : Prop where
  exact : ∀ m ∈ group, ∀ r, r.isNew = false →
    (r ∈ g'.attached m plan.resolved ↔ r ∈ plan.dealt g answers m)
  kept : plan.query.query.accessPolicy = none → ∀ r ∈ answers, plan.Told g group r →
    ∃ m ∈ group, r ∈ g'.attached m plan.resolved

section Spared

variable {plan : Plan} {g t t' : Graph σ} {done group others : List Model}
  {answers : List Record} {m : Model}

/-- A fetch for other members changes nothing about what is handed to a member. -/
theorem Plan.dealt_of_spares (hg : g.WellFormed) (h : g.Spares t done) (hm : g.HasModel m)
    (hout : m ∉ done) : plan.dealt t answers m = plan.dealt g answers m := by
  simp only [dealt, keeps_of_spares hg h hm hout, h.record hm, Graph.keyIds]

/-- Neither does it change which answers can be told. -/
theorem Plan.Told.of_spares {r : Record} (h : g.Spares t done)
    (hgroup : ∀ m ∈ group, g.HasModel m) (htold : plan.Told g group r) : plan.Told t group r where
  wraps := htold.wraps
  reads m hm := by
    have hasks : plan.asksFor t m = plan.asksFor g m := by
      simp only [asksFor, h.record (hgroup m hm), Graph.keyIds]
    rw [hasks]
    exact htold.reads m hm
  room hside hsingle m hm := by
    rw [Graph.keyIds, h.record (hgroup m hm)]
    exact htold.room hside hsingle m hm

/-- What a fetch for one group handed out stays so while others are fetched for, and can be told
from the state before those that came first. -/
theorem Plan.Deals.of_spares (hg : g.WellFormed) (ht' : t'.WellFormed) (before : g.Spares t done)
    {g' : Graph σ} (after : t'.Spares g' others) (hgroup : ∀ m ∈ group, g.HasModel m ∧ m ∉ done)
    (hlater : ∀ m ∈ group, t'.HasModel m ∧ m ∉ others) (h : plan.Deals t t' group answers) :
    plan.Deals g g' group answers where
  exact m hm r hr := by
    rw [Graph.attached_of_spares ht' after (hlater m hm).1 (hlater m hm).2, h.exact m hm r hr,
      Plan.dealt_of_spares hg before (hgroup m hm).1 (hgroup m hm).2]
  kept hpolicy r hr htold := by
    obtain ⟨m, hm, hattached⟩ :=
      h.kept hpolicy r hr (htold.of_spares before fun m hm => (hgroup m hm).1)
    refine ⟨m, hm, ?_⟩
    rw [Graph.attached_of_spares ht' after (hlater m hm).1 (hlater m hm).2]
    exact hattached

end Spared

/-! ## What is attached -/

section Loaded

variable {plan : Plan} {g unloaded ran g' : Graph σ} {members : List Model}
  {answers : List Record} {found : OrderedMap String Model} {pairs : List (Model × Model)}
  {m : Model} {r : Record}

/-- Of the far models that are handed to a member with room for one, the last one stays. -/
theorem Loading.attached_of_single
    (h : Loading plan members g unloaded ran g' answers found pairs) (hm : m ∈ members)
    (hsingle : plan.resolved.holdsSingle = true) : g'.attached m plan.resolved =
      (((pairs.filter fun pair => pair.1 = m).map Prod.snd).map
        fun x => (g'.model x).record).getLast?.toList := by
  rw [Graph.attached, hsingle]
  simp only [Graph.loadedParents]
  rw [h.parents_near hm hsingle, ← Option.toList_map, ← List.getLast?_map]

/-- The stored models in a collection are the far models that are handed to the member. -/
theorem Loading.mem_attached_of_many (hg : g.WellFormed)
    (h : Loading plan members g unloaded ran g' answers found pairs) (hthere : g.HasModel m)
    (hm : m ∈ members) (hmany : plan.resolved.holdsSingle = false) (hr : r.isNew = false) :
    r ∈ g'.attached m plan.resolved ↔
      r ∈ ((pairs.filter fun pair => pair.1 = m).map Prod.snd).map
        fun x => (g'.model x).record := by
  obtain ⟨c, hc, -, hfilled, -⟩ := h.collection_near hm hmany
  rw [Graph.attached, hmany]
  simp only [Graph.loadedChildren, hc, hfilled]
  rw [List.mem_map, List.mem_map]
  constructor
  · rintro ⟨x, hx, rfl⟩
    rcases OrderedMap.mem_values_of_insertAll hx with hheld | hfar
    · -- what the collection held before is not stored
      rcases OrderedMap.mem_values_of_insertAll hheld with hnone | hunsaved
      · simp [OrderedMap.values] at hnone
      · obtain ⟨hold, hnew⟩ := hg.of_mem_unsavedChildren hthere hunsaved
        rw [h.spares.record hold, hnew] at hr
        cases hr
    · exact ⟨x, hfar, rfl⟩
  · rintro ⟨x, hx, rfl⟩
    have hfound : ∀ y ∈ (pairs.filter fun pair => pair.1 = m).map Prod.snd,
        y ∈ found.values := fun y hy => h.mem_found (mem_map_snd_filter.mp hy)
    refine ⟨x, OrderedMap.mem_values_iff.mpr ⟨(ran.model x).key, ?_⟩, rfl⟩
    exact OrderedMap.get?_insertAll_of_mem hx fun y hy hkey =>
      h.finds.eq_of_key_eq (hfound y hy) (hfound x hx) hkey

/-- A member that keeps an unsaved parent has nothing stored attached. -/
theorem not_mem_attached_of_keeps (hg : g.WellFormed) (h : g.Spares g' members)
    (hthere : g.HasModel m) (hout : m ∉ members) (hkeeps : plan.keeps g m = true)
    (hsingle : plan.resolved.holdsSingle = true) (hr : r.isNew = false) :
    r ∉ g'.attached m plan.resolved := by
  rw [Graph.attached_of_spares hg h hthere hout, Graph.attached, hsingle]
  simp only [Graph.loadedParents]
  rw [Plan.keeps, Bool.and_eq_true, Option.any_eq_true] at hkeeps
  obtain ⟨-, p, hp, hnew⟩ := hkeeps
  rw [hp]
  simp only [Option.toList_some, List.map_singleton, List.mem_singleton]
  rintro rfl
  rw [hnew] at hr
  cases hr

end Loaded

variable {plan : Plan} {g unloaded ran g' : Graph MemoryStore} {members : List Model}
  {answers : List Record} {found owners : OrderedMap String Model}
  {pairs : List (Model × Model)} {m : Model} {r : Record} {entityType : String}

/-- No two answers have one identifier. -/
theorem Plan.answerUnder?_eq_some (hfiled : g.store.Filed)
    (hstored : ∀ r ∈ answers, r ∈ (g.store.recordsOf entityType).values) {id : String} :
    plan.answerUnder? answers id = some r ↔
      r ∈ answers ∧ r.id = some id ∧ plan.wraps r = true := by
  have hmem : ∀ {a}, plan.answerUnder? answers id = some a →
      a ∈ answers ∧ a.id = some id ∧ plan.wraps a = true := by
    intro a ha
    have hown := List.find?_some ha
    rw [Bool.and_eq_true, decide_eq_true_eq] at hown
    exact ⟨List.mem_of_find?_eq_some ha, hown⟩
  refine ⟨hmem, fun ⟨hr, hid, htype⟩ => ?_⟩
  obtain ⟨a, ha⟩ : ∃ a, plan.answerUnder? answers id = some a := by
    rw [← Option.isSome_iff_exists, answerUnder?, List.find?_isSome]
    exact ⟨r, hr, by simp [hid, htype]⟩
  obtain ⟨hanswer, haid, -⟩ := hmem ha
  rw [ha, hfiled.eq_of_id (hstored a hanswer) (hstored r hr) haid hid]

/-- Under an identifier stands a model of the answer that has it. -/
theorem Loading.record_under_eq (hfiled : g.store.Filed)
    (hstored : ∀ r ∈ answers, r ∈ (g.store.recordsOf entityType).values)
    (h : Loading plan members g unloaded ran g' answers found pairs) (id : String) :
    (found.get? id).map (fun x => (g'.model x).record) = plan.answerUnder? answers id := by
  refine Option.ext fun r => ?_
  rw [Plan.answerUnder?_eq_some hfiled hstored, Option.map_eq_some_iff]
  simp only [h.handed.relinks.record]
  constructor
  · rintro ⟨x, hx, rfl⟩
    obtain ⟨hanswer, hid⟩ := h.finds.record id x hx
    refine ⟨hanswer, hid, ?_⟩
    rw [Plan.wraps, (h.finds.wraps id x hx).2.2.typeFor, Option.isSome_some]
  · rintro ⟨hr, hid, htype⟩
    obtain ⟨x, hx⟩ := h.finds.complete r hr htype id hid
    obtain ⟨hanswer, hxid⟩ := h.finds.record id x hx
    exact ⟨x, hx, hfiled.eq_of_id (hstored _ hanswer) (hstored r hr) hxid hid⟩

/-- What is handed to a member that holds the foreign key. -/
theorem Loading.mem_attached_parentSide (hg : g.WellFormed) (hfiled : g.store.Filed)
    (hstored : ∀ r ∈ answers, r ∈ (g.store.recordsOf entityType).values)
    (hside : plan.resolved.side = .parent) {loading : List Model} (hnodup : loading.Nodup)
    (h : Loading plan loading g unloaded ran g' answers found (parentPairs plan g found loading))
    (hthere : g.HasModel m) (hm : m ∈ loading) (hkeeps : plan.keeps g m = false)
    (hr : r.isNew = false) :
    r ∈ g'.attached m plan.resolved ↔ r ∈ plan.dealt g answers m := by
  have hnamed : (((parentPairs plan g found loading).filter fun pair => pair.1 = m).map
      Prod.snd).map (fun x => (g'.model x).record) =
        (g.keyIds plan.resolved.foreignKey m).filterMap (plan.answerUnder? answers) := by
    rw [filter_parentPairs hnodup hm, List.map_filterMap]
    exact List.filterMap_congr fun id _ => h.record_under_eq hfiled hstored id
  simp only [Plan.dealt, hside, hkeeps, Bool.false_eq_true, if_false]
  by_cases hsingle : plan.resolved.cardinality = .single
  · have hholds : plan.resolved.holdsSingle = true := by
      rw [Resolved.holdsSingle_of_parent hside, hsingle]
      rfl
    rw [if_pos hsingle, h.attached_of_single hm hholds, hnamed]
  · have hmany : plan.resolved.holdsSingle = false := by
      rw [Resolved.holdsSingle_of_parent hside, decide_eq_false hsingle]
    rw [if_neg hsingle, h.mem_attached_of_many hg hthere hm hmany hr, hnamed]

/-- What is handed to a member that does not hold the foreign key. -/
theorem Loading.mem_attached_childSide (hg : g.WellFormed) (hfiled : g.store.Filed)
    (hstored : ∀ r ∈ answers, r ∈ (g.store.recordsOf entityType).values)
    (hside : plan.resolved.side = .child)
    (howners : ∀ id m, owners.get? id = some m ↔ m ∈ members ∧ (g.model m).record.id = some id)
    (h : Loading plan members g unloaded ran g' answers found
      (childPairs plan ran owners found.values))
    (hthere : g.HasModel m) (hm : m ∈ members) (hr : r.isNew = false) :
    r ∈ g'.attached m plan.resolved ↔ r ∈ plan.dealt g answers m := by
  classical
  have hrecords : ∀ r, (∃ x ∈ found.values, (ran.model x).record = r) ↔
      r ∈ answers ∧ plan.wraps r = true := by
    intro r
    rw [← List.mem_map, h.finds.records_eq hfiled hstored, mem_distinct, List.mem_filter]
    rfl
  rw [h.mem_attached_of_many hg hthere hm (Resolved.holdsSingle_of_child hside) hr,
    List.mem_map]
  simp only [Plan.dealt, hside, mem_map_snd_filter_childPairs howners hm,
    h.handed.relinks.record, List.mem_filter, Bool.and_eq_true, ← and_assoc, ← hrecords,
    Record.pointsTo, Option.any_eq_true, decide_eq_true_eq]
  constructor
  · rintro ⟨x, ⟨hx, id, hown, hid⟩, rfl⟩
    exact ⟨⟨x, hx, rfl⟩, id, hown, hid⟩
  · rintro ⟨⟨x, hx, rfl⟩, id, hown, hid⟩
    exact ⟨x, ⟨hx, id, hown, hid⟩, rfl⟩

/-! ## What comes back -/

/-- A store that has the records of another one and has noted since which queries brought back
the answers. -/
structure Plan.Noted (plan : Plan) (store : MemoryStore) (answers : List Record)
    (now : MemoryStore) : Prop where
  records : now.records = store.records
  executed : ∃ asked, now.executed = store.executed ++ asked ∧
    answers = asked.flatMap (store.returned plan.query.query.entityType)

/-- Each of the records compares with one of the identifiers, unless an access policy may have
rewritten the query. -/
def Plan.Compares (plan : Plan) (ids : List String) (rs : List Record) : Prop :=
  plan.query.query.accessPolicy = none → ∀ r ∈ rs,
    ∃ v ∈ r.valuesAt plan.path, ∃ id ∈ ids, v.looselyEqual (.text id) = true

/-- What comes back is stored. -/
theorem Plan.Noted.mem_recordsOf {store now : MemoryStore} (h : plan.Noted store answers now) :
    ∀ r ∈ answers, r ∈ (store.recordsOf plan.query.query.entityType).values := by
  obtain ⟨asked, -, rfl⟩ := h.executed
  intro r hr
  obtain ⟨q, -, hr⟩ := List.mem_flatMap.mp hr
  obtain ⟨id, -, hid⟩ := List.mem_filterMap.mp hr
  exact OrderedMap.mem_values_iff.mpr ⟨id, hid⟩

/-- Each batch notes one query and brings back records that compare with its identifiers. -/
theorem Plan.Noted.fetch {store : MemoryStore} {before rs : List Record} {ids : List String}
    {t t' : Graph MemoryStore} (hfiled : store.Filed)
    (hcondition : plan.condition = (Condition.inList plan.path []).required)
    (h : plan.Noted store before t.store)
    (hrun : Returns ((batchQuery plan ids).query.fetch plan.session) t rs t') :
    plan.Noted store (before ++ rs) t'.store ∧ plan.Compares ids rs := by
  obtain ⟨built, noted, hbuilt, hunpoliced, hrecords, hexecuted, rfl⟩ := Query.exists_noted hrun
  have hreturned : t.store.returned = store.returned := MemoryStore.returned_of_records h.records
  obtain ⟨asked, hasked, rfl⟩ := h.executed
  refine ⟨⟨hrecords.trans h.records, asked ++ [noted], ?_, ?_⟩, fun hpolicy r hr => ?_⟩
  · rw [hexecuted, hasked, List.append_assoc]
  · rw [List.flatMap_append, List.flatMap_singleton, hreturned]
    rfl
  · obtain rfl := hunpoliced hpolicy
    rw [hreturned, ← (Query.kept_of_build hbuilt).1, hfiled.returned_eq] at hr
    have hselected := MemoryStore.mem_of_mem_slice hr
    rw [MemoryStore.select, List.mem_mergeSort, List.mem_filter,
      Query.holds_root_eq_meets hbuilt, batchQuery, ModelQuery.map, Query.meets_addBase,
      Bool.and_eq_true, hcondition, Condition.holds_inList_iff] at hselected
    exact hselected.2.2

/-- All that came back compares with an identifier that was asked for. -/
theorem Answered.compares {Stored : MemoryStore → Prop} {ids : List String}
    (h : Answered plan Stored plan.Compares g ran ids answers) : plan.Compares ids answers := by
  intro hpolicy r hr
  obtain ⟨answered, rfl, hbatches⟩ := h.byBatch
  obtain ⟨rs, hrs, hr⟩ := List.mem_flatten.mp hr
  obtain ⟨i, hi, rfl⟩ := List.mem_iff_getElem.mp hrs
  have hi' := hbatches.length_eq ▸ hi
  obtain ⟨v, hv, id, hid, hequal⟩ := hbatches.get hi' hi hpolicy r hr
  refine ⟨v, hv, id, ?_, hequal⟩
  rw [← flatten_batches ((g.session plan.session).config.fetchBatchSize.getD ids.length) ids]
  exact List.mem_flatten.mpr ⟨_, List.getElem_mem hi', hid⟩

/-! ## One group -/

/-- An answer that can be told is dealt to the member whose identifier it compares with. -/
theorem Plan.Told.mem_dealt_childSide {id : String} {v : Value} (h : plan.Told g members r)
    (hside : plan.resolved.side = .child) (hr : r ∈ answers) (hm : m ∈ members)
    (hid : (g.model m).record.id = some id) (hv : v ∈ r.valuesAt plan.path)
    (hequal : v.looselyEqual (.text id) = true) : r ∈ plan.dealt g answers m := by
  have hreads : v.toId? = some id :=
    h.reads m hm id (by simp [asksFor, hside, hid]) v hv hequal
  have hrefers : id ∈
      r.referenceIds plan.resolved.foreignKey.field plan.resolved.foreignKey.column := by
    rw [path, hside] at hv
    exact List.mem_filterMap.mpr ⟨v, hv, hreads⟩
  simp [dealt, hside, hr, h.wraps, Record.pointsTo, hid, hrefers]

/-- An answer that can be told is dealt to a member with an identifier that it compares with. -/
theorem Plan.Told.mem_dealt_parentSide {id : String} {v : Value} (hfiled : g.store.Filed)
    (hstored : ∀ r ∈ answers, r ∈ (g.store.recordsOf entityType).values)
    (h : plan.Told g members r) (hside : plan.resolved.side = .parent) (hr : r ∈ answers)
    (hm : m ∈ members) (hkeeps : plan.keeps g m = false)
    (hid : id ∈ g.keyIds plan.resolved.foreignKey m) (hv : v ∈ r.valuesAt plan.path)
    (hequal : v.looselyEqual (.text id) = true) : r ∈ plan.dealt g answers m := by
  have hreads : v.toId? = some id :=
    h.reads m hm id (by simpa [asksFor, hside] using hid) v hv hequal
  have hown : r.id = some id := by
    obtain ⟨own, hstands⟩ := OrderedMap.mem_values_iff.mp (hstored r hr)
    have hrid := (hfiled entityType own r hstands).1
    simp only [path, hside, Record.valuesAt, if_pos, hrid, Option.map_some, Option.toList_some,
      List.mem_singleton] at hv
    rw [hv, Value.toId?] at hreads
    split at hreads
    · cases hreads
    · rw [hrid, hreads]
  have hunder : plan.answerUnder? answers id = some r :=
    (answerUnder?_eq_some hfiled hstored).mpr ⟨hr, hown, h.wraps⟩
  simp only [dealt, hside, hkeeps, Bool.false_eq_true, if_false]
  by_cases hsingle : plan.resolved.cardinality = .single
  · obtain ⟨only, hids⟩ := List.length_eq_one_iff.mp
      (Nat.le_antisymm (h.room hside hsingle m hm) (List.length_pos_of_mem hid))
    rw [hids, List.mem_singleton] at hid
    rw [if_pos hsingle, hids, ← hid, List.filterMap_cons_some hunder]
    simp
  · rw [if_neg hsingle]
    exact List.mem_filterMap.mpr ⟨id, hid, hunder⟩

variable {s : Session} {t : ModelType} {name : String} {callers : Option Query}
  {group : List Model}

namespace Planned

/-- What the fetch for one group hands out, if its members hold the foreign key. -/
theorem deals_parentSide (hg : g.WellFormed) (hfiled : g.store.Filed)
    (hplan : Planned g.registry s t name callers plan)
    (hcondition : plan.condition = (Condition.inList plan.path []).required)
    (hside : plan.resolved.side = .parent) (ht : g.registry.get t.name = .ok t)
    (htypes : ∀ m ∈ group, (g.model m).modelType = t) (hnodup : group.Nodup)
    (hmembers : ∀ m ∈ group, g.HasModel m) (h : Returns (parentSide plan group) g () g') :
    g.Spares g' group ∧ ∃ answers, plan.Noted g.store answers g'.store ∧
      plan.Deals g g' group answers := by
  obtain ⟨unloaded, ran, answers, found, hloading, hanswered⟩ := tracks_parentSide
    (plan.Noted g.store) (fun _ _ _ _ _ hnoted hrun => hnoted.fetch hfiled hcondition hrun)
    hside (hg.fetchable hnodup hmembers _)
    (fun m hm => hplan.ownKey hg.registry hside ht (htypes m hm)) ⟨rfl, [], by simp, rfl⟩ h
  have hstored := hanswered.stored.mem_recordsOf
  have hexact : ∀ m ∈ group, ∀ r, r.isNew = false →
      (r ∈ g'.attached m plan.resolved ↔ r ∈ plan.dealt g answers m) := by
    intro m hm r hr
    cases hkeeps : plan.keeps g m with
    | false =>
        exact hloading.mem_attached_parentSide hg hfiled hstored hside (hnodup.filter _)
          (hmembers m hm) (by simp [hm, hkeeps]) hkeeps hr
    | true =>
        -- an unsaved parent stays
        have hsingle : plan.resolved.holdsSingle = true := by
          rw [Resolved.holdsSingle_of_parent hside]
          exact (Bool.and_eq_true_iff.mp hkeeps).1
        have hnone := not_mem_attached_of_keeps hg hloading.spares (hmembers m hm)
          (by simp [hkeeps]) hkeeps hsingle hr
        simp [Plan.dealt, hside, hkeeps, hnone]
  refine ⟨hloading.spares.mono fun m hm => (List.mem_filter.mp hm).1, answers, ?_, hexact, ?_⟩
  · rw [hloading.handed.relinks.store]
    exact hanswered.stored
  · intro hpolicy r hr htold
    obtain ⟨v, hv, id, hid, hequal⟩ := hanswered.compares hpolicy r hr
    rw [mem_distinct, List.mem_flatten] at hid
    obtain ⟨ids, hids, hid⟩ := hid
    obtain ⟨m, hm, rfl⟩ := List.mem_map.mp hids
    rw [List.mem_filter, Bool.not_eq_true'] at hm
    exact ⟨m, hm.1, (hexact m hm.1 r (hfiled.isNew_of_mem (hstored r hr))).mpr
      (htold.mem_dealt_parentSide hfiled hstored hside hr hm.1 hm.2 hid hv hequal)⟩

/-- What the fetch for one group hands out, if its members do not hold the foreign key. -/
theorem deals_childSide (hg : g.WellFormed) (hfiled : g.store.Filed)
    (hcondition : plan.condition = (Condition.inList plan.path []).required)
    (hside : plan.resolved.side = .child) (hnodup : group.Nodup)
    (hmembers : ∀ m ∈ group, g.HasModel m) (hids : g.DistinctIds group)
    (h : Returns (childSide plan group) g () g') :
    g.Spares g' group ∧ ∃ answers, plan.Noted g.store answers g'.store ∧
      plan.Deals g g' group answers := by
  obtain ⟨unloaded, ran, answers, found, owners, howners, hloading, hanswered⟩ :=
    tracks_childSide (plan.Noted g.store)
      (fun _ _ _ _ _ hnoted hrun => hnoted.fetch hfiled hcondition hrun) hside
      (hg.fetchable hnodup hmembers _) hids ⟨rfl, [], by simp, rfl⟩ h
  have hstored := hanswered.stored.mem_recordsOf
  have hexact : ∀ m ∈ group, ∀ r, r.isNew = false →
      (r ∈ g'.attached m plan.resolved ↔ r ∈ plan.dealt g answers m) := fun m hm r hr =>
    hloading.mem_attached_childSide hg hfiled hstored hside howners (hmembers m hm) hm hr
  refine ⟨hloading.spares, answers, ?_, hexact, ?_⟩
  · rw [hloading.handed.relinks.store]
    exact hanswered.stored
  · intro hpolicy r hr htold
    obtain ⟨v, hv, id, hid, hequal⟩ := hanswered.compares hpolicy r hr
    rw [← OrderedMap.contains_iff_mem_keys, OrderedMap.contains, Option.isSome_iff_exists] at hid
    obtain ⟨m, howner⟩ := hid
    obtain ⟨hm, hown⟩ := (howners id m).mp howner
    exact ⟨m, hm, (hexact m hm r (hfiled.isNew_of_mem (hstored r hr))).mpr
      (htold.mem_dealt_childSide hside hr hm hown hv hequal)⟩

/-- What the fetch for one group hands out. -/
theorem deals_group (hg : g.WellFormed) (hfiled : g.store.Filed)
    (hplan : Planned g.registry s t name callers plan) (ht : g.registry.get t.name = .ok t)
    (htypes : ∀ m ∈ group, (g.model m).modelType = t) (hnodup : group.Nodup)
    (hmembers : ∀ m ∈ group, g.HasModel m) (hids : g.DistinctIds group)
    (hparent : plan.resolved.side = .parent → Returns (parentSide plan group) g () g')
    (hchild : plan.resolved.side = .child → Returns (childSide plan group) g () g') :
    g.Spares g' group ∧ ∃ answers, plan.Noted g.store answers g'.store ∧
      plan.Deals g g' group answers := by
  obtain ⟨relationship, -, hrelationship, -, hcondition, -⟩ := hplan.declared
  have hpath : plan.condition = (Condition.inList plan.path []).required :=
    Registry.relationshipCondition_eq hg.registry hplan.resolved ht hrelationship hcondition
  cases hside : plan.resolved.side with
  | parent =>
      exact hplan.deals_parentSide hg hfiled hpath hside ht htypes hnodup hmembers (hparent hside)
  | child => exact deals_childSide hg hfiled hpath hside hnodup hmembers hids (hchild hside)

end Planned

end Fetching

end RecordGraph
