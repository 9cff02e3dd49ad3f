/-
# Groups of records

Aggregates are computed over groups of records that agree in the first values of some fields.
The store groups by the texts of these values. Values of the same text are the same, so there is
one row for every distinct tuple of values, in the order in which the tuples first occur, and
each record contributes to the row of its own tuple and to no other one.

Values are told apart by form here: the two zeros among floats are different values, though
they are equal as numbers, and make two rows.
-/
import Mathlib.Data.List.Induction
import Mathlib.Data.List.Nodup
import RecordGraph.Proofs.MemoryStores
import RecordGraph.Proofs.WrittenValues

namespace RecordGraph

namespace Value

/-! ## Telling values apart -/

mutual

/-- Whether two values are the same in form, the two zeros among floats being different. -/
def identical : Value → Value → Bool
  | .null, .null => true
  | .bool a, .bool b => a == b
  | .int m, .int n => m == n
  | .float x, .float y => decide (x = y)
  | .text s, .text t => s == t
  | .list as, .list bs => identicalItems as bs
  | .object as, .object bs => identicalMembers as bs
  | _, _ => false

/-- Whether two lists are the same, item by item. -/
def identicalItems : List Value → List Value → Bool
  | [], [] => true
  | a :: as, b :: bs => identical a b && identicalItems as bs
  | _, _ => false

/-- Whether two objects are the same, member by member. -/
def identicalMembers : List (String × Value) → List (String × Value) → Bool
  | [], [] => true
  | (k, a) :: as, (l, b) :: bs => k == l && identical a b && identicalMembers as bs
  | _, _ => false

end

mutual

theorem identical_iff : (v w : Value) → (identical v w = true ↔ v = w)
  | .null, w => by cases w <;> simp [identical]
  | .bool b, w => by cases w <;> simp [identical]
  | .int n, w => by cases w <;> simp [identical]
  | .float x, w => by cases w <;> simp [identical]
  | .text s, w => by cases w <;> simp [identical]
  | .list items, w => by
      cases w with
      | list others => simp [identical, identicalItems_iff items others]
      | _ => simp [identical]
  | .object members, w => by
      cases w with
      | object others => simp [identical, identicalMembers_iff members others]
      | _ => simp [identical]

theorem identicalItems_iff : (as bs : List Value) → (identicalItems as bs = true ↔ as = bs)
  | [], bs => by cases bs <;> simp [identicalItems]
  | a :: as, bs => by
      cases bs with
      | nil => simp [identicalItems]
      | cons b bs => simp [identicalItems, identical_iff a b, identicalItems_iff as bs]

theorem identicalMembers_iff :
    (as bs : List (String × Value)) → (identicalMembers as bs = true ↔ as = bs)
  | [], bs => by cases bs <;> simp [identicalMembers]
  | (k, a) :: as, bs => by
      cases bs with
      | nil => simp [identicalMembers]
      | cons m bs =>
          obtain ⟨l, b⟩ := m
          simp [identicalMembers, identical_iff a b, identicalMembers_iff as bs, and_assoc]

end

instance : DecidableEq Value := fun v w => decidable_of_iff _ (identical_iff v w)

end Value

namespace Record

/-- All values of the record are finite. -/
def Finite (r : Record) : Prop := ∀ f ∈ r.fields, f.2.Finite

instance (r : Record) : Decidable r.Finite := inferInstanceAs (Decidable (∀ f ∈ r.fields, _))

variable {r : Record} {v : Value}

theorem Finite.get? (hr : r.Finite) {field : String} (h : r.get? field = some v) : v.Finite := by
  obtain ⟨f, hfound, rfl⟩ := Option.map_eq_some_iff.mp h
  exact hr f (List.mem_of_find?_eq_some hfound)

/-- The values of a field, or of a column of its items, are finite with the field. -/
theorem Finite.of_mem_fieldValues (hr : r.Finite) {field : String} {column : Option String}
    (h : v ∈ r.fieldValues field column) : v.Finite := by
  unfold fieldValues at h
  cases hfield : r.get? field with
  | none => simp [hfield] at h
  | some held =>
      have hheld := hr.get? hfield
      rw [hfield] at h
      obtain ⟨item, hitem, hread⟩ := List.mem_filterMap.mp (List.mem_filter.mp h).1
      have hfinite : item.Finite := by
        cases held with
        | list items => exact Value.finiteItems_iff.mp hheld item hitem
        | _ => exact List.mem_singleton.mp hitem ▸ hheld
      cases column with
      | none => exact Option.some.inj hread ▸ hfinite
      | some key => exact hfinite.member? hread

/-- A value at a path is a text of the record itself or a value of one of its fields. -/
theorem of_mem_valuesAt {path : String} (h : v ∈ r.valuesAt path) :
    (∃ s, v = .text s) ∨ ∃ field column, v ∈ r.fieldValues field column := by
  unfold valuesAt at h
  split at h
  · obtain ⟨id, -, rfl⟩ := Option.map_eq_some_iff.mp (Option.mem_toList.mp h)
    exact .inl ⟨id, rfl⟩
  · split at h
    · exact .inl ⟨r.bundle, List.mem_singleton.mp h⟩
    · exact .inr ⟨_, _, h⟩

theorem Finite.of_mem_valuesAt (hr : r.Finite) {path : String} (h : v ∈ r.valuesAt path) :
    v.Finite := by
  obtain ⟨s, rfl⟩ | ⟨field, column, hfield⟩ := Record.of_mem_valuesAt h
  · trivial
  · exact hr.of_mem_fieldValues hfield

/-- Null counts as no value. -/
theorem not_isNull_of_mem_valuesAt {path : String} (h : v ∈ r.valuesAt path) :
    v.isNull = false := by
  obtain ⟨s, rfl⟩ | ⟨field, column, hfield⟩ := of_mem_valuesAt h
  · rfl
  · simp only [fieldValues] at hfield
    split at hfield
    · cases hfield
    · simpa using (List.mem_filter.mp hfield).2

end Record

/-! ## Lists by the values of their members -/

/-- Where different members are taken to different ones, each can be taken once before or after. -/
theorem distinct_map {α β : Type} [DecidableEq α] [DecidableEq β] {f : α → β} {xs : List α}
    (hinj : ∀ x ∈ xs, ∀ y ∈ xs, f x = f y → x = y) :
    distinct (xs.map f) = (distinct xs).map f := by
  simp only [← List.filterMap_eq_map]
  refine distinct_filterMap xs fun x hx y hy c hxc hyc => ?_
  exact hinj x hx y hy (Option.some.inj (hxc.trans hyc.symm))

/-- Different keys that cover a list take it apart. -/
theorem flatMap_fibers_perm {α κ : Type} [DecidableEq κ] (key : α → κ) {keys : List κ}
    (hkeys : keys.Nodup) {xs : List α} (hcovered : ∀ x ∈ xs, key x ∈ keys) :
    (keys.flatMap fun k => xs.filter fun x => key x = k).Perm xs := by
  induction keys generalizing xs with
  | nil => simp [List.eq_nil_iff_forall_not_mem.mpr fun x hx => by simpa using hcovered x hx]
  | cons k rest ih =>
      obtain ⟨hk, hrest⟩ := List.nodup_cons.mp hkeys
      -- what is left when the members under the first key are taken away
      have hothers : ∀ x ∈ xs.filter fun x => ¬ key x = k, key x ∈ rest := by
        intro x hx
        obtain ⟨hmem, hne⟩ := List.mem_filter.mp hx
        exact (List.mem_cons.mp (hcovered x hmem)).resolve_left (of_decide_eq_true hne)
      have hsame : (rest.flatMap fun j => (xs.filter fun x => ¬ key x = k).filter
          fun x => key x = j) = rest.flatMap fun j => xs.filter fun x => key x = j := by
        refine List.flatMap_congr fun j hj => ?_
        rw [List.filter_filter]
        refine List.filter_congr fun x _ => ?_
        have hjk : j ≠ k := fun heq => hk (heq ▸ hj)
        by_cases hx : key x = j
        · simp [hx, hjk]
        · simp [hx]
      have hleft := ih hrest hothers
      rw [hsame] at hleft
      rw [List.flatMap_cons]
      refine (hleft.append_left _).trans ?_
      simpa using List.filter_append_perm (fun x => decide (key x = k)) xs

namespace OrderedMap

variable {κ α : Type} [DecidableEq κ]

/-- The values are what the keys answer. -/
theorem values_eq_filterMap (m : OrderedMap κ α) : m.values = m.keys.filterMap m.get? := by
  rw [values, keys, List.filterMap_map, ← List.filterMap_eq_map]
  refine List.filterMap_congr fun e he => ?_
  exact (get?_eq_some_iff.mpr he).symm

end OrderedMap

namespace Aggregation

variable (a : Aggregation)

/-! ## Groups -/

/-- The texts by which a record is grouped. -/
def groupKey (r : Record) : List String := (a.groupValues r).map Value.render

/-- The distinct tuples of group values, in the order of their first occurrence. -/
def tuples (rs : List Record) : List (List Value) := distinct (rs.map a.groupValues)

/-- The records with the given group values. -/
def members (rs : List Record) (t : List Value) : List Record :=
  rs.filter fun r => a.groupValues r = t

/-- A record is put to those of its group. -/
theorem groups_concat (rs : List Record) (r : Record) :
    a.groups (rs ++ [r]) = (a.groups rs).insert (a.groupKey r)
      (match (a.groups rs).get? (a.groupKey r) with
        | none => (a.groupValues r, [r])
        | some (first, members) => (first, members ++ [r])) := by
  conv_lhs => rw [groups, List.foldl_append, List.foldl_cons, List.foldl_nil, ← groups]
  simp only [groupKey]
  cases (a.groups rs).get? ((a.groupValues r).map Value.render) <;> rfl

theorem keys_groups (rs : List Record) : (a.groups rs).keys = distinct (rs.map a.groupKey) := by
  induction rs using List.reverseRecOn with
  | nil => rfl
  | append_singleton rs r ih =>
      rw [groups_concat, OrderedMap.keys_insert, ih, List.map_append, List.map_singleton,
        distinct_concat]

/-- A group has all records of its texts, and the group values of the first one. -/
theorem get?_groups (rs : List Record) (k : List String) :
    (a.groups rs).get? k = (rs.find? fun r => a.groupKey r = k).map fun r =>
      (a.groupValues r, rs.filter fun r => a.groupKey r = k) := by
  induction rs using List.reverseRecOn with
  | nil => rfl
  | append_singleton rs r ih =>
      rw [groups_concat, OrderedMap.get?_insert, List.find?_append, List.filter_append]
      by_cases hk : a.groupKey r = k
      · subst hk
        rw [if_pos rfl, ih]
        cases hfirst : rs.find? fun other => a.groupKey other = a.groupKey r with
        | none =>
            have hnone : (rs.filter fun other => a.groupKey other = a.groupKey r) = [] := by
              rw [List.filter_eq_nil_iff]
              exact fun other hother => List.find?_eq_none.mp hfirst other hother
            simp [hnone]
        | some first => simp
      · rw [if_neg hk, ih]
        simp [hk]

/-- The group values of a finite record are finite. -/
theorem finite_of_mem_groupValues {r : Record} (hr : r.Finite) :
    ∀ v ∈ a.groupValues r, v.Finite := by
  intro v hv
  obtain ⟨path, -, rfl⟩ := List.mem_map.mp hv
  cases hhead : (r.valuesAt path).head? with
  | none => trivial
  | some first => exact hr.of_mem_valuesAt (List.mem_of_mem_head? hhead)

/-- Finite records have the same texts only if they have the same group values. -/
theorem groupKey_inj {r other : Record} (hr : r.Finite) (hother : other.Finite)
    (h : a.groupKey r = a.groupKey other) : a.groupValues r = a.groupValues other :=
  Value.map_render_inj (a.finite_of_mem_groupValues hr) (a.finite_of_mem_groupValues hother) h

theorem groupKey_eq_iff {r other : Record} (hr : r.Finite) (hother : other.Finite) :
    a.groupKey r = a.groupKey other ↔ a.groupValues r = a.groupValues other :=
  ⟨a.groupKey_inj hr hother, congrArg (List.map Value.render)⟩

theorem mem_tuples {rs : List Record} {t : List Value} :
    t ∈ a.tuples rs ↔ ∃ r ∈ rs, a.groupValues r = t := by
  rw [tuples, mem_distinct, List.mem_map]

/-- Records of finite values are grouped by their values. -/
theorem values_groups {rs : List Record} (hfinite : ∀ r ∈ rs, r.Finite) :
    (a.groups rs).values = (a.tuples rs).map fun t => (t, a.members rs t) := by
  have hkeys : (a.groups rs).keys = (a.tuples rs).map (List.map Value.render) := by
    rw [keys_groups, tuples, ← distinct_map, List.map_map]
    · rfl
    · intro t ht u hu hsame
      obtain ⟨r, hr, rfl⟩ := List.mem_map.mp ht
      obtain ⟨other, hother, rfl⟩ := List.mem_map.mp hu
      exact a.groupKey_inj (hfinite r hr) (hfinite other hother) hsame
  rw [OrderedMap.values_eq_filterMap, hkeys, List.filterMap_map]
  conv_rhs => rw [← List.filterMap_eq_map]
  refine List.filterMap_congr fun t ht => ?_
  -- any record of the tuple leads to the group of the first one
  obtain ⟨r, hr, rfl⟩ := a.mem_tuples.mp ht
  have hsame : ∀ other ∈ rs, (decide (a.groupKey other = a.groupKey r)) =
      decide (a.groupValues other = a.groupValues r) := fun other hother =>
    decide_eq_decide.mpr (a.groupKey_eq_iff (hfinite other hother) (hfinite r hr))
  change (a.groups rs).get? (a.groupKey r) = _
  rw [get?_groups, List.filter_congr hsame]
  cases hfirst : rs.find? fun other => a.groupKey other = a.groupKey r with
  | none => exact absurd (List.find?_eq_none.mp hfirst r hr) (by simp)
  | some first =>
      have hmem := List.mem_of_find?_eq_some hfirst
      have hkey : a.groupKey first = a.groupKey r := by simpa using List.find?_some hfirst
      rw [Option.map_some, a.groupKey_inj (hfinite first hmem) (hfinite r hr) hkey]
      rfl

/-- Each record is in the group of its own group values and in no other one. -/
theorem existsUnique_members {rs : List Record} {r : Record} (hr : r ∈ rs) :
    ∃! t, t ∈ a.tuples rs ∧ r ∈ a.members rs t := by
  refine ⟨a.groupValues r, ⟨a.mem_tuples.mpr ⟨r, hr, rfl⟩, List.mem_filter.mpr ⟨hr, by simp⟩⟩, ?_⟩
  rintro t ⟨-, hmember⟩
  exact (of_decide_eq_true (List.mem_filter.mp hmember).2).symm

/-- The groups together have all records. -/
theorem flatMap_members_perm (rs : List Record) :
    ((a.tuples rs).flatMap (a.members rs)).Perm rs :=
  flatMap_fibers_perm a.groupValues (nodup_distinct _) fun r hr => a.mem_tuples.mpr ⟨r, hr, rfl⟩

/-- All groups together have as many values at a path as there are. -/
theorem sum_length_valuesAt (rs : List Record) (path : String) :
    ((a.tuples rs).map fun t => ((a.members rs t).flatMap (·.valuesAt path)).length).sum =
      (rs.flatMap (·.valuesAt path)).length := by
  rw [← List.length_flatMap, ← List.flatMap_assoc]
  exact ((a.flatMap_members_perm rs).flatMap_right _).length_eq

/-! ## Rows -/

variable {a}

/-- The columns of a row. -/
def columns (a : Aggregation) : List String := a.groupBy ++ a.aggregates.map Aggregate.label

section Row

variable {t : List Value} {rs : List Record}

/-- The entries of a row. -/
def rowEntries (a : Aggregation) (t : List Value) (rs : List Record) : List (String × Value) :=
  a.groupBy.zip t ++ a.aggregates.map fun g =>
    (g.label, g.function.apply (rs.flatMap (·.valuesAt g.field)))

/-- A row of different columns has its entries as they are written. -/
theorem entries_row (hcolumns : a.columns.Nodup) (ht : t.length = a.groupBy.length) :
    (a.row t rs).entries = a.rowEntries t rs := by
  refine OrderedMap.entries_ofList ?_
  rw [List.map_append, List.map_fst_zip ht.ge, List.map_map]
  exact hcolumns

/-- A row answers the group values of its group under the grouping fields. -/
theorem map_get?_row (hcolumns : a.columns.Nodup) (ht : t.length = a.groupBy.length) :
    a.groupBy.map (a.row t rs).get? = t.map some := by
  have hentry : ∀ e ∈ a.groupBy.zip t, (a.row t rs).get? e.1 = some e.2 := by
    intro e he
    rw [OrderedMap.get?_eq_some_iff, entries_row hcolumns ht]
    exact List.mem_append_left _ he
  calc a.groupBy.map (a.row t rs).get?
      = (a.groupBy.zip t).map fun e => (a.row t rs).get? e.1 := by
        conv_lhs => rw [← List.map_fst_zip ht.ge, List.map_map]
        rfl
    _ = (a.groupBy.zip t).map fun e => some e.2 := List.map_congr_left hentry
    _ = t.map some := by
        conv_rhs => rw [← List.map_snd_zip ht.le, List.map_map]
        rfl

/-- Under the name of an aggregate a row answers what is computed over its group. -/
theorem get?_row_label (hcolumns : a.columns.Nodup) (ht : t.length = a.groupBy.length)
    {g : Aggregate} (hg : g ∈ a.aggregates) :
    (a.row t rs).get? g.label = some (g.function.apply (rs.flatMap (·.valuesAt g.field))) := by
  rw [OrderedMap.get?_eq_some_iff, entries_row hcolumns ht]
  exact List.mem_append_right _ (List.mem_map.mpr ⟨g, hg, rfl⟩)

end Row

/-- Each row of the selected records has a tuple of group values and what is computed over the
records of these values. -/
theorem rows_eq {rs : List Record} (hfinite : ∀ r ∈ rs, r.Finite) :
    a.rows rs = (a.tuples rs).map fun t => a.row t (a.members rs t) := by
  rw [rows, values_groups a hfinite, List.map_map]
  rfl

theorem length_of_mem_tuples {rs : List Record} {t : List Value} (h : t ∈ a.tuples rs) :
    t.length = a.groupBy.length := by
  obtain ⟨r, -, rfl⟩ := a.mem_tuples.mp h
  exact List.length_map _

/-- The rows answer the tuples under the grouping fields. -/
theorem map_get?_rows (hcolumns : a.columns.Nodup) {rs : List Record}
    (hfinite : ∀ r ∈ rs, r.Finite) :
    (a.rows rs).map (fun row => a.groupBy.map row.get?) =
      (a.tuples rs).map fun t => t.map some := by
  rw [rows_eq hfinite, List.map_map]
  exact List.map_congr_left fun t ht => map_get?_row hcolumns (length_of_mem_tuples ht)

/-- Under the name of an aggregate the rows answer what is computed over the groups. -/
theorem map_get?_rows_label (hcolumns : a.columns.Nodup) {rs : List Record}
    (hfinite : ∀ r ∈ rs, r.Finite) {g : Aggregate} (hg : g ∈ a.aggregates) :
    (a.rows rs).map (fun row => row.get? g.label) = (a.tuples rs).map fun t =>
      some (g.function.apply ((a.members rs t).flatMap fun r => r.valuesAt g.field)) := by
  rw [rows_eq hfinite, List.map_map]
  exact List.map_congr_left fun t ht => get?_row_label hcolumns (length_of_mem_tuples ht) hg

/-- All values at a path count, as none of them is null. -/
theorem countP_valuesAt (rs : List Record) (path : String) :
    (rs.flatMap fun r => r.valuesAt path).countP (fun v => !v.isNull) =
      (rs.flatMap fun r => r.valuesAt path).length := by
  rw [List.countP_eq_length]
  intro v hv
  obtain ⟨r, -, hvalue⟩ := List.mem_flatMap.mp hv
  rw [Record.not_isNull_of_mem_valuesAt hvalue, Bool.not_false]

end Aggregation

namespace MemoryStore

variable {s : MemoryStore} {q : StoreQuery} {a : Aggregation}

/-- Without sort orders the selected records stand as they are stored. -/
theorem select_of_unsorted (h : q.sorts = []) :
    s.select q = (s.recordsOf q.entityType).values.filter q.root.holds := by
  rw [select, h]
  exact List.mergeSort_of_pairwise (List.pairwise_of_forall fun _ _ => rfl)

/-- The store in memory answers an aggregation whose columns are different with one row for each
tuple of first group values, null standing for none, in the order in which the tuples first occur
among the selected records. Every selected record contributes to one row, that of its own tuple,
and the counts of all rows add up to the number of values that are not null. -/
theorem rows_partition_selected (hcolumns : a.columns.Nodup)
    (hfinite : ∀ r ∈ (s.recordsOf q.entityType).values, r.Finite) :
    ∃ rows s', aggregate q a s = (.ok rows, s') ∧
      (a.tuples (s.select q)).Nodup ∧
      rows.map (fun row => a.groupBy.map row.get?) =
        (a.tuples (s.select q)).map (fun t => t.map some) ∧
      (∀ g ∈ a.aggregates, rows.map (fun row => row.get? g.label) =
        (a.tuples (s.select q)).map fun t => some (g.function.apply
          ((a.members (s.select q) t).flatMap fun r => r.valuesAt g.field))) ∧
      (∀ r ∈ s.select q, ∃! t, t ∈ a.tuples (s.select q) ∧ r ∈ a.members (s.select q) t) ∧
      ∀ g ∈ a.aggregates, g.function = .count → ∃ counts : List Nat,
        rows.map (fun row => row.get? g.label) = counts.map (fun n => some (.int n)) ∧
        counts.sum = ((s.select q).flatMap fun r => r.valuesAt g.field).countP fun v =>
          !v.isNull := by
  have hselected : ∀ r ∈ s.select q, r.Finite := fun r hr =>
    hfinite r (mem_recordsOf_of_mem_select hr)
  have hlabels : ∀ g ∈ a.aggregates, (a.rows (s.select q)).map (fun row => row.get? g.label) = _ :=
    fun g hg => Aggregation.map_get?_rows_label hcolumns hselected hg
  refine ⟨a.rows (s.select q), _, rfl, nodup_distinct _,
    Aggregation.map_get?_rows hcolumns hselected, hlabels,
    fun r hr => a.existsUnique_members hr, fun g hg hcount => ?_⟩
  refine ⟨(a.tuples (s.select q)).map fun t =>
    ((a.members (s.select q) t).flatMap fun r => r.valuesAt g.field).length, ?_, ?_⟩
  · rw [hlabels g hg, hcount, List.map_map]
    rfl
  · rw [a.sum_length_valuesAt, Aggregation.countP_valuesAt]

end MemoryStore

namespace Library

/-- A store of sheets that have the given marks. -/
def marked (marks : List (Option Value)) : MemoryStore :=
  marks.foldl (fun s mark => (s.seed (match mark with
    | none => Record.new "node" "sheet"
    | some v => (Record.new "node" "sheet").set "mark" v)).2) MemoryStore.empty

/-- How many marks there are of each kind. -/
def marksByMark : Aggregation := ⟨[⟨"mark", .count, "marks"⟩], ["mark"]⟩

/-- Marks that look like the number one, a sheet without mark, and one with two. -/
def ones : MemoryStore :=
  marked [some (.int 1), some (.float 1.0), none, some (.text "1"), some .null,
    some (.list [.int 1, .text "1"])]

/-- The whole number, the float, no mark and the text make four rows, which count five marks. -/
theorem ones_rows : ∃ rows s', MemoryStore.aggregate (StoreQuery.new "node") marksByMark ones =
      (.ok rows, s') ∧
    rows.map (fun row => marksByMark.groupBy.map row.get?) =
      [[some (.int 1)], [some (.float 1.0)], [some .null], [some (.text "1")]] ∧
    ∃ counts : List Nat, rows.map (fun row => row.get? "marks") =
      counts.map (fun n => some (.int n)) ∧ counts.sum = 5 := by
  obtain ⟨rows, s', hrun, -, htuples, -, -, hcounts⟩ :=
    MemoryStore.rows_partition_selected (s := ones) (q := StoreQuery.new "node")
      (a := marksByMark) (by decide) (by decide +kernel)
  obtain ⟨counts, hlabels, hsum⟩ := hcounts ⟨"mark", .count, "marks"⟩ (by decide) rfl
  rw [MemoryStore.select_of_unsorted rfl] at htuples hsum
  exact ⟨rows, s', hrun, htuples.trans (by decide +kernel), counts, hlabels,
    hsum.trans (by decide +kernel)⟩

/-- Both zeros are equal as numbers, and make two rows. -/
theorem zeros_rows : (Value.float 0.0).same (.float (-0.0)) = true ∧
    marksByMark.columns.Nodup ∧
    ∃ rows s', MemoryStore.aggregate (StoreQuery.new "node") marksByMark
      (marked [some (.float 0.0), some (.float (-0.0))]) = (.ok rows, s') ∧
    rows.length = 2 ∧
    ∀ row ∈ rows, (row.get? "mark").any (fun v => v.same (.float 0.0)) = true := by
  refine ⟨by decide +kernel, by decide, _, _, rfl, ?_⟩
  rw [MemoryStore.select_of_unsorted rfl]
  decide +kernel

end Library

end RecordGraph
