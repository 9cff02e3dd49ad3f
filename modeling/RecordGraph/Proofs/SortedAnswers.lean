/-
# Sorted answers

The records that a query selects, and the members of a collection that is sorted, come in the
order of the sort orders, as far as there is one: turning two records round turns their order
round, and where the records are compared in one way at every path, no record stands before one
that the sort orders put before it. Without that proviso comparing is not transitive, and a
record can stand before one that is strictly smaller.
-/
import RecordGraph.Graph.Collection
import RecordGraph.Proofs.Comparisons
import RecordGraph.Proofs.MemoryStores
import RecordGraph.Proofs.Upholding.Histories

namespace RecordGraph

/-- Sorting by an order that ranks the members leaves none before one that must come first. -/
theorem pairwise_mergeSort_of_ranked {α : Type} {le : α → α → Bool} {l : List α}
    (htrans : ∀ a ∈ l, ∀ b ∈ l, ∀ c ∈ l, le a b = true → le b c = true → le a c = true)
    (htotal : ∀ a ∈ l, ∀ b ∈ l, (le a b || le b a) = true) :
    (l.mergeSort le).Pairwise fun a b => le a b = true := by
  have hattached : (l.attach.mergeSort fun a b => le a.1 b.1).Pairwise fun a b =>
      le a.1 b.1 = true :=
    List.pairwise_mergeSort (fun a b c => htrans a.1 a.2 b.1 b.2 c.1 c.2)
      (fun a b => htotal a.1 a.2 b.1 b.2) l.attach
  have hmapped : (l.attach.mergeSort fun a b => le a.1 b.1).map Subtype.val = l.mergeSort le := by
    rw [List.map_mergeSort (s := le) fun _ _ _ _ => rfl, l.attach_map_subtype_val]
  rw [← hmapped, List.pairwise_map]
  exact hattached

namespace Record

variable {sorts : List (String × SortDirection)} {rs : List Record}

theorem Ranked.pairwise_mergeSort (h : Ranked sorts rs) :
    (rs.mergeSort (precedes sorts)).Pairwise fun a b => compareBy sorts a b ≠ .gt :=
  (pairwise_mergeSort_of_ranked h.trans h.total).imp fun hab => by
    simpa [precedes] using hab

theorem compareBy_single (path : String) (direction : SortDirection) (a b : Record) :
    compareBy [(path, direction)] a b = direction.apply (compareAt path a b) := by
  unfold compareBy
  split
  · rename_i hequal
    rw [hequal]
    rfl
  · rfl

end Record

/-! ## Queries to the store -/

namespace MemoryStore

/-- The records that meet the root of a query, in the order of the store. -/
def matched (s : MemoryStore) (q : StoreQuery) : List Record :=
  (s.recordsOf q.entityType).values.filter q.root.holds

/-- A query that selects answers the selected records, cut to its range. -/
theorem Filed.execute_eq {s : MemoryStore} (h : s.Filed) {q : StoreQuery}
    (hselects : q.countOnly = false) : ∃ ids, (execute q s).1 = .ok ids ∧
      ids.filterMap (s.recordsOf q.entityType).get? = q.slice (s.select q) := by
  refine ⟨q.slice ((s.select q).filterMap Record.id), ?_, h.returned_eq q⟩
  rw [execute_of_selects hselects]

end MemoryStore

/-! ## Collections -/

namespace Graph

variable {σ : Type}

/-- The records of the members of a collection. -/
def memberRecords (g : Graph σ) (c : Collection) : List Record :=
  (g.collection c).members.values.map fun m => (g.model m).record

end Graph

/-- Sorting a collection rearranges its members, as their records are sorted. -/
theorem Collection.returns_sortByField {σ : Type} (g : Graph σ) (c : Collection) (path : String)
    (direction : SortDirection) : ∃ g', Returns (c.sortByField path direction) g () g' ∧
      (g'.collection c).members.entries.Perm (g.collection c).members.entries ∧
      g'.memberRecords c =
        (g.memberRecords c).mergeSort (Record.precedes [(path, direction)]) := by
  refine ⟨_, returns_bind.mpr ⟨g, g, by simp, returns_update.mpr rfl⟩, ?_, ?_⟩
  · rw [Graph.collection_setCollection, if_pos rfl]
    exact List.mergeSort_perm _ _
  · simp only [Graph.memberRecords, Graph.collection_setCollection,
      Graph.model_setCollection, OrderedMap.values, OrderedMap.sortBy, List.map_map]
    exact List.map_mergeSort fun _ _ _ _ => rfl

/-! ## Sorting -/

namespace Library

/-- An article that may say in which edition it is. -/
def edited (id : String) (edition : Option Value) : Record :=
  let r := (Record.new "node" "article").withId id
  (edition.map (r.set "edition")).getD r

/-- Articles that spell their edition, give it as a number, or do not give it. -/
def editions : MemoryStore :=
  [edited "cells" (some (.text "10")), edited "roots" none, edited "trees" (some (.int 9))].foldl
    (fun s r => (s.seed r).2) MemoryStore.empty

/-- The query for the two latest editions. -/
def latest : StoreQuery :=
  ((StoreQuery.new "node").sort "edition" .descending).withRange 0 2

/-- The graph with two articles in a collection. -/
def ranged : Graph MemoryStore :=
  (Collection.forgeByIds session "article" ["cells", "trees"] (opened [author, article])).2

end Library

end RecordGraph
