/-
# What the batches of a fetch select

Every batch runs the relationship's query, with what a caller has copied onto it, for some of
the identifiers. On the store in memory all batches together select the records that one query
for all identifiers selects. Their order may differ: a record comes with the first batch that
asks for it. Of records that the same batches ask for the order is that of the one query, as
long as the sort orders rank the records.
-/
import RecordGraph.Proofs.Fetching.Answers
import RecordGraph.Proofs.Sorting

namespace RecordGraph

/-- Asking for texts selects a record if one of its values compares with one of them. -/
theorem Condition.holds_inList_iff {path : String} {ids : List String} {r : Record} :
    ((inList path []).required.withValue (Value.texts ids)).holds r = true ↔
      ∃ v ∈ r.valuesAt path, ∃ id ∈ ids, v.looselyEqual (.text id) = true := by
  unfold holds
  by_cases hnone : r.valuesAt path = []
  · simp [withValue, required, inList, new, hnone]
  · simp [withValue, required, inList, new, hnone, Operator.holdsOf, Value.texts, Value.items]

/-- No record is filed twice. -/
theorem MemoryStore.Filed.nodup_values {store : MemoryStore} (h : store.Filed)
    (entityType : String) : (store.recordsOf entityType).values.Nodup := by
  have hids : (store.recordsOf entityType).values.map Record.id =
      (store.recordsOf entityType).keys.map some := by
    rw [OrderedMap.values, OrderedMap.keys, List.map_map, List.map_map]
    apply List.map_congr_left
    intro e he
    exact (h entityType e.1 e.2 (OrderedMap.get?_eq_some_iff.mpr he)).1
  apply List.Nodup.of_map Record.id
  rw [hids]
  exact (OrderedMap.keys_nodup _).map fun _ _ => Option.some.inj

namespace Fetching

/-- The plan asks for identifiers at a path, by a query that is neither cut to a range nor meant
for an access policy. -/
structure Plan.Asks (plan : Plan) (path : String) : Prop where
  plain : plan.query.query.Plain
  condition : plan.condition = (Condition.inList path []).required

/-- The records that a plan selects for identifiers, in the order of its query. -/
def Plan.selection (plan : Plan) (store : MemoryStore) (ids : List String) : List Record :=
  store.answersTo (batchQuery plan ids).query

/-- The records among which a plan selects: those of its bundle, if it has one far type. -/
def Plan.stored (plan : Plan) (store : MemoryStore) : List Record :=
  (store.recordsOf plan.query.query.entityType).values.filter fun r =>
    plan.query.query.baseConditions.all (·.holds r)

variable {plan : Plan} {path : String} {store : MemoryStore} {ids : List String} {r : Record}

theorem Plan.Asks.meets_batchQuery (h : plan.Asks path) (ids : List String) (r : Record) :
    (batchQuery plan ids).query.meets r = true ↔ plan.query.query.meets r = true ∧
      ∃ v ∈ r.valuesAt path, ∃ id ∈ ids, v.looselyEqual (.text id) = true := by
  rw [batchQuery, ModelQuery.map, Query.meets_addBase, Bool.and_eq_true, h.condition,
    Condition.holds_inList_iff]

theorem Plan.mem_stored : r ∈ plan.stored store ↔
    r ∈ (store.recordsOf plan.query.query.entityType).values ∧
      plan.query.query.baseConditions.all (·.holds r) = true :=
  List.mem_filter

theorem Plan.base_of_meets (h : (batchQuery plan ids).query.meets r = true) :
    plan.query.query.baseConditions.all (·.holds r) = true := by
  rw [batchQuery, ModelQuery.map, Query.meets_addBase, Bool.and_eq_true] at h
  exact Query.base_of_meets h.1

theorem Plan.mem_selection : r ∈ plan.selection store ids ↔
    r ∈ plan.stored store ∧ (batchQuery plan ids).query.meets r = true := by
  rw [selection, MemoryStore.mem_answersTo, mem_stored]
  exact ⟨fun h => ⟨⟨h.1, base_of_meets h.2⟩, h.2⟩, fun h => ⟨h.1.1, h.2⟩⟩

theorem Plan.nodup_selection (hfiled : store.Filed) : (plan.selection store ids).Nodup :=
  (List.mergeSort_perm _ _).nodup_iff.mpr ((hfiled.nodup_values _).filter _)

/-- More identifiers select more records. -/
theorem Plan.Asks.selection_mono (h : plan.Asks path) {more : List String}
    (hids : ∀ id ∈ ids, id ∈ more) (hr : r ∈ plan.selection store ids) :
    r ∈ plan.selection store more := by
  rw [Plan.mem_selection, h.meets_batchQuery] at hr ⊢
  obtain ⟨hstored, hmeets, v, hv, id, hid, hequal⟩ := hr
  exact ⟨hstored, hmeets, v, hv, id, hids id hid, hequal⟩

/-- Only which identifiers there are matters. -/
theorem Plan.Asks.selection_congr (h : plan.Asks path) {others : List String}
    (hids : ∀ id, id ∈ ids ↔ id ∈ others) :
    plan.selection store ids = plan.selection store others := by
  have hmeets : (batchQuery plan ids).query.meets = (batchQuery plan others).query.meets := by
    funext r
    rw [Bool.eq_iff_iff, h.meets_batchQuery, h.meets_batchQuery]
    simp only [hids]
  rw [selection, selection, MemoryStore.answersTo, MemoryStore.answersTo, hmeets]
  rfl

/-- The batches select what one query for all identifiers selects. -/
theorem Plan.Asks.mem_flatMap_batches (h : plan.Asks path) (size : Nat) :
    r ∈ (batches size ids).flatMap (plan.selection store) ↔ r ∈ plan.selection store ids := by
  have hbatches : ∀ id, (∃ batch ∈ batches size ids, id ∈ batch) ↔ id ∈ ids := by
    intro id
    rw [← List.mem_flatten, flatten_batches]
  rw [List.mem_flatMap]
  constructor
  · rintro ⟨batch, hbatch, hr⟩
    exact h.selection_mono (fun id hid => (hbatches id).mp ⟨batch, hbatch, hid⟩) hr
  · intro hr
    rw [Plan.mem_selection, h.meets_batchQuery] at hr
    obtain ⟨hstored, hmeets, v, hv, id, hid, hequal⟩ := hr
    obtain ⟨batch, hbatch, hid⟩ := (hbatches id).mpr hid
    refine ⟨batch, hbatch, ?_⟩
    rw [Plan.mem_selection, h.meets_batchQuery]
    exact ⟨hstored, hmeets, v, hv, id, hid, hequal⟩

/-- Leaving records out of a ranked selection is selecting from fewer records. -/
theorem Plan.filter_selection
    (hranked : Record.Ranked plan.query.query.sorts.entries (plan.stored store))
    (ids : List String) (p : Record → Bool) :
    (plan.selection store ids).filter p =
      ((plan.stored store).filter fun r => p r && (batchQuery plan ids).query.meets r).mergeSort
        (Record.precedes plan.query.query.sorts.entries) := by
  have hkept : Record.Ranked plan.query.query.sorts.entries
      ((plan.stored store).filter (batchQuery plan ids).query.meets) :=
    hranked.of_subset fun r hr => (List.mem_filter.mp hr).1
  have hselected : plan.selection store ids =
      ((plan.stored store).filter (batchQuery plan ids).query.meets).mergeSort
        (Record.precedes plan.query.query.sorts.entries) := by
    rw [stored, List.filter_filter, selection, MemoryStore.answersTo]
    congr 1
    apply List.filter_congr
    intro r _
    cases hmeets : (batchQuery plan ids).query.meets r with
    | false => rfl
    | true => rw [base_of_meets hmeets, Bool.and_true]
  rw [← List.filter_filter, hselected]
  exact hkept.filter_mergeSort p

open scoped Classical in
/-- Batches, and one query for all identifiers, give records of equal keys in the same order,
if the sort orders rank the records. -/
theorem Plan.Asks.distinct_flatMap_batches (h : plan.Asks path) (hfiled : store.Filed)
    (hranked : Record.Ranked plan.query.query.sorts.entries (plan.stored store))
    {p : Record → Bool}
    (halike : ∀ a ∈ plan.stored store, ∀ b ∈ plan.stored store, p a = true → p b = true →
      a.valuesAt path = b.valuesAt path) (size : Nat) :
    distinct (((batches size ids).flatMap (plan.selection store)).filter p) =
      (plan.selection store ids).filter p := by
  rw [List.filter_flatMap]
  -- a batch asks for all of these records or for none
  have hall : ∀ batch ∈ batches size ids, (plan.selection store batch).filter p ≠ [] →
      (plan.selection store batch).filter p = (plan.selection store ids).filter p := by
    intro batch hbatch hsome
    obtain ⟨a, ha⟩ := List.exists_mem_of_ne_nil _ hsome
    obtain ⟨hselected, hpa⟩ := List.mem_filter.mp ha
    rw [Plan.mem_selection, h.meets_batchQuery] at hselected
    obtain ⟨hstored, -, v, hv, id, hid, hequal⟩ := hselected
    have hwithin : id ∈ ids := by
      rw [← flatten_batches size ids]
      exact List.mem_flatten.mpr ⟨batch, hbatch, hid⟩
    rw [Plan.filter_selection hranked, Plan.filter_selection hranked]
    congr 1
    apply List.filter_congr
    intro r hr
    cases hp : p r with
    | false => rfl
    | true =>
        have hv' : v ∈ r.valuesAt path := halike a hstored r hr hpa hp ▸ hv
        rw [Bool.true_and, Bool.true_and, Bool.eq_iff_iff, h.meets_batchQuery,
          h.meets_batchQuery]
        apply and_congr_right
        intro _
        exact ⟨fun _ => ⟨v, hv', id, hwithin, hequal⟩, fun _ => ⟨v, hv', id, hid, hequal⟩⟩
  apply distinct_flatMap_of_same ((Plan.nodup_selection hfiled).filter p)
  · intro batch hbatch
    by_cases hnone : (plan.selection store batch).filter p = []
    · exact .inr hnone
    · exact .inl (hall batch hbatch hnone)
  · intro hsome
    obtain ⟨a, ha⟩ := List.exists_mem_of_ne_nil _ hsome
    obtain ⟨hselected, hpa⟩ := List.mem_filter.mp ha
    obtain ⟨batch, hbatch, hin⟩ :=
      List.mem_flatMap.mp ((h.mem_flatMap_batches size).mpr hselected)
    exact ⟨batch, hbatch, hall batch hbatch
      (List.ne_nil_of_mem (List.mem_filter.mpr ⟨hin, hpa⟩))⟩

end Fetching

end RecordGraph
