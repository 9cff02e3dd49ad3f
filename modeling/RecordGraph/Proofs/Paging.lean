/-
# Numbers, pages and records

A store has three ways to answer a query: it counts, it lists identifiers and it loads records.
Only the second one looks at the range, and the first one is asked without sort orders. On the
store in memory the three agree on every query that no access policy looks at: the count is the
length of the whole list, a range is a slice of it, and what is loaded are the records of the
listed identifiers, one by one. The last needs that every record is filed under the identifier
that it carries.

An access policy may rewrite the range and anything else, so nothing is said about queries that
reach one.
-/
import RecordGraph.Proofs.StoreHistories

namespace RecordGraph

/-- A store query with another range, or none. -/
def StoreQuery.cutTo (q : StoreQuery) (range : Option (Nat × Nat)) : StoreQuery :=
  { q with range := range }

namespace Query

/-- A query with another range, or none. -/
def cutTo (q : Query) (range : Option (Nat × Nat)) : Query := { q with range := range }

/-- The range is handed on to the store and has no other part in what is built. -/
theorem build_cutTo (q : Query) (range : Option (Nat × Nat)) :
    (q.cutTo range).build = (·.cutTo range) <$> q.build := by
  have hroot : (q.cutTo range).buildRoot = q.buildRoot := rfl
  unfold build
  rw [hroot]
  cases q.buildRoot with
  | error e => rfl
  | ok root =>
      simp only [StoreQuery.foldl_addTag, cutTo]
      cases q.accessPolicy with
      | none => rfl
      | some policy => rfl

theorem build_cutTo_of_build {q : Query} {built : StoreQuery} (h : q.build = .ok built)
    (range : Option (Nat × Nat)) : (q.cutTo range).build = .ok (built.cutTo range) := by
  rw [build_cutTo, h]
  rfl

theorem Unguarded.cutTo {q : Query} (h : q.Unguarded) (range : Option (Nat × Nat)) :
    (q.cutTo range).Unguarded :=
  ⟨h.accessPolicy, h.untagged⟩

end Query

namespace MemoryStore

/-- As many records are counted as are listed, though they are not sorted. -/
theorem length_select_count (store : MemoryStore) (q : StoreQuery) :
    (store.select q.count).length = (store.select q).length := by
  rw [select, select, List.length_mergeSort, List.length_mergeSort]
  rfl

/-- The identifiers of the records that a query asks for, in its order, its range left out of
account. -/
def idsFor (store : MemoryStore) (q : Query) : List String :=
  (store.answersTo q).filterMap Record.id

theorem mem_recordsOf_of_mem_answersTo {store : MemoryStore} {q : Query} {r : Record}
    (h : r ∈ store.answersTo q) : r ∈ (store.recordsOf q.entityType).values :=
  (mem_answersTo.mp h).1

/-- Filed records have their identifiers listed one by one. -/
theorem Filed.map_some_filterMap_id {store : MemoryStore} (h : store.Filed) {entityType : String}
    {rs : List Record} (hrs : ∀ r ∈ rs, r ∈ (store.recordsOf entityType).values) :
    (rs.filterMap Record.id).map some = rs.map Record.id := by
  rw [h.filterMap_id hrs, List.map_map]
  refine List.map_congr_left fun r hr => ?_
  obtain ⟨id, hget⟩ := OrderedMap.mem_values_iff.mp (hrs r hr)
  simp [(h entityType id r hget).1]

/-- As long as the store holds the same records the action answers `x`, and leaves the records
there. -/
def Reads {α : Type} (store : MemoryStore) (a : Action MemoryStore α) (x : α) : Prop :=
  ∀ g : Graph MemoryStore, g.store.records = store.records →
    ∃ g', Returns a g x g' ∧ g'.store.records = store.records

variable {store : MemoryStore} {q : Query} {built : StoreQuery}

/-- What a query asks for depends on the records only. -/
theorem answersTo_of_records {other : MemoryStore} (h : other.records = store.records)
    (q : Query) : other.answersTo q = store.answersTo q := by
  rw [answersTo, answersTo, recordsOf, recordsOf, h]

/-- Listing identifiers brings the slice that the range leaves. -/
theorem reads_fetchIds (hq : q.Unguarded) (hbuilt : q.build = .ok built) (s : Session) :
    store.Reads (q.fetchIds s) (built.slice (store.idsFor q)) := by
  intro g hg
  have hexecute := execute_of_selects (Query.kept_of_build hbuilt).2.2.2.2 g.store
  rw [Query.select_of_build hbuilt, answersTo_of_records hg, ← idsFor] at hexecute
  refine ⟨{ g with store := (execute built g.store).2 }, ?_, ?_⟩
  · have hprepare := (Session.returns_prepare_of_untagged (g := g) (s := s)
      (hq.hasTag_of_build hbuilt)).mpr ⟨rfl, rfl⟩
    exact returns_bind.mpr ⟨built, g, returns_ofExcept.mpr ⟨rfl, hbuilt⟩,
      returns_bind.mpr ⟨built, g, hprepare, returns_call.mpr ⟨_, hexecute, rfl⟩⟩⟩
  · exact (records_execute built g.store).trans hg

/-- Counting brings the length of the whole list. -/
theorem reads_fetchTotal (hq : q.Unguarded) (hbuilt : q.build = .ok built) (s : Session) :
    store.Reads (q.fetchTotal s) (store.answersTo q).length := by
  intro g hg
  have hcount : q.buildCount = .ok built.count := by
    rw [Query.buildCount, hbuilt]
    rfl
  have huntagged : built.hasTag accessPolicyTag = false := hq.hasTag_of_build hbuilt
  have hprepare := (Session.returns_prepare_of_untagged (g := g) (s := s)
    (show built.count.hasTag accessPolicyTag = false from huntagged)).mpr ⟨rfl, rfl⟩
  have hanswer : count built.count g.store =
      (.ok (store.answersTo q).length, (count built.count g.store).2) := by
    rw [count, length_select_count, Query.select_of_build hbuilt, answersTo_of_records hg]
  refine ⟨{ g with store := (count built.count g.store).2 }, ?_, hg⟩
  exact returns_bind.mpr ⟨built.count, g, returns_ofExcept.mpr ⟨rfl, hcount⟩,
    returns_bind.mpr ⟨built.count, g, hprepare, returns_call.mpr ⟨_, hanswer, rfl⟩⟩⟩

/-- Loading brings the records of the listed identifiers, none of which is missing. -/
theorem Filed.reads_fetch (hfiled : store.Filed) (hq : q.Unguarded) (hbuilt : q.build = .ok built)
    (s : Session) : store.Reads (q.fetch s) (built.slice (store.answersTo q)) := by
  intro g hg
  obtain ⟨g', hids, hg'⟩ := reads_fetchIds hq hbuilt s g hg
  have hstored : ∀ r ∈ built.slice (store.answersTo q),
      r ∈ (store.recordsOf q.entityType).values := fun r hr =>
    mem_recordsOf_of_mem_answersTo (mem_of_mem_slice hr)
  have hslice : built.slice (store.idsFor q) =
      (built.slice (store.answersTo q)).filterMap Record.id := by
    rw [idsFor, hfiled.filterMap_id fun r hr => mem_recordsOf_of_mem_answersTo hr, slice_map,
      ← hfiled.filterMap_id hstored]
  have hload : (built.slice (store.idsFor q)).filterMap (g'.store.recordsOf q.entityType).get? =
      built.slice (store.answersTo q) := by
    rw [hslice, recordsOf, hg', ← recordsOf]
    exact hfiled.filterMap_get? hstored
  by_cases hempty : (built.slice (store.idsFor q)).isEmpty = true
  · -- nothing is loaded then
    refine ⟨g', returns_bind.mpr ⟨_, g', hids, ?_⟩, hg'⟩
    rw [if_pos hempty, ← hload, List.isEmpty_iff.mp hempty]
    exact returns_pure.mpr ⟨rfl, rfl⟩
  · refine ⟨{ g' with store := (loadMultiple q.entityType (built.slice (store.idsFor q))
      g'.store).2 }, returns_bind.mpr ⟨_, g', hids, ?_⟩, hg'⟩
    rw [if_neg hempty]
    exact returns_call.mpr ⟨_, Prod.ext (congrArg Except.ok hload) rfl, rfl⟩

/-- On the store in memory a query that can be built and that no access policy looks at is
counted, listed and loaded alike: the records that it asks for have their identifiers listed
without a range, as many are counted, each range lists its slice, and what is loaded are the
records of the identifiers that are listed for the query's own range, in the same order. -/
theorem counts_lists_and_loads_alike {log : List (String × String)} (h : History log store)
    (hq : q.Unguarded) (hbuilt : q.build = .ok built) (s : Session) :
    ∃ ids : List String, ids.map some = (store.answersTo q).map Record.id ∧
      store.Reads (q.withoutRange.fetchIds s) ids ∧
      store.Reads (q.fetchTotal s) ids.length ∧
      (∀ start length, store.Reads ((q.withRange start length).fetchIds s)
        ((ids.drop start).take length)) ∧
      ∃ own rs, store.Reads (q.fetchIds s) own ∧ store.Reads (q.fetch s) rs ∧
        rs.map Record.id = own.map some := by
  have hfiled := h.filed
  have hstored : ∀ r ∈ store.answersTo q, r ∈ (store.recordsOf q.entityType).values :=
    fun r hr => mem_recordsOf_of_mem_answersTo hr
  have hlisted : (store.idsFor q).map some = (store.answersTo q).map Record.id :=
    hfiled.map_some_filterMap_id hstored
  have hlength : (store.idsFor q).length = (store.answersTo q).length := by
    rw [← List.length_map some, hlisted, List.length_map]
  have hcut : ∀ range, store.Reads ((q.cutTo range).fetchIds s)
      ((built.cutTo range).slice (store.idsFor q)) := fun range =>
    reads_fetchIds (hq.cutTo range) (Query.build_cutTo_of_build hbuilt range) s
  refine ⟨store.idsFor q, hlisted, hcut none, ?_, fun start length =>
    hcut (some (start, length)), _, _, reads_fetchIds hq hbuilt s,
    hfiled.reads_fetch hq hbuilt s, ?_⟩
  · rw [hlength]
    exact reads_fetchTotal hq hbuilt s
  · rw [← slice_map, ← hlisted, slice_map]

end MemoryStore

namespace Library

/-- The shelf with one more sheet, which gets the identifier "8". -/
def restocked : MemoryStore := (MemoryStore.save (Record.new "node" "sheet") reshelved).2

/-- The query for the sheets, the largest number first, from the second one on. -/
def sheetsDown : Query := ((Query.new "node").sortBy "id" .descending).withRange 1 Text.wordMax

/-- Two sheets are counted, and one is on the page behind the first one. -/
theorem restocked_alike :
    restocked.Reads (sheetsDown.fetchTotal ⟨0⟩) 2 ∧
    restocked.Reads ((sheetsDown.withRange 0 1).fetchIds ⟨0⟩) ["8"] ∧
    restocked.Reads ((sheetsDown.withRange 1 Text.wordMax).fetchIds ⟨0⟩) ["007"] := by
  have hunguarded : sheetsDown.Unguarded := ⟨rfl, by simp [sheetsDown, Query.withRange,
    Query.sortBy, Query.new]⟩
  obtain ⟨ids, hids, -, htotal, hpages, -⟩ := MemoryStore.counts_lists_and_loads_alike
    (history_reshelved.save (Record.new "node" "sheet")) hunguarded
    (eq_ok_of_isOk (by decide +kernel) default) ⟨0⟩
  rw [MemoryStore.answersTo, ← sortBriefly_eq] at hids
  have hlisted : ids.map some = ["8", "007"].map some := hids.trans (by decide +kernel)
  obtain rfl := List.map_injective_iff.mpr (Option.some_injective _) hlisted
  exact ⟨htotal, hpages 0 1, hpages 1 Text.wordMax⟩

end Library

end RecordGraph
