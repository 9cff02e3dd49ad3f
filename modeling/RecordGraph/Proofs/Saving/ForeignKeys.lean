/-
# What foreign keys hold

A foreign key is written as a field and read back along a path. The two agree where the field
is named without a point: what is written to the key is what it holds then, every key in
another field keeps what it held, and nothing else of the record is touched.
-/
import RecordGraph.Proofs.OrderedMaps
import RecordGraph.Relationship.Basic

namespace RecordGraph

namespace Value

/-- A float in writing has a character at least. -/
theorem floatText_ne_blank (x : Float) : floatText x ≠ "" := by
  have hpositional : ∀ ds k, positional ds k ≠ [] := by
    intro ds k
    unfold positional
    split
    · simp
    · extract_lets places
      split
      · simp
      · simp
  have hexponent : ∀ ds e, withExponent ds e ≠ [] := by
    simp [withExponent]
  unfold floatText
  split
  · decide
  · rename_i b _
    have hmagnitude : ∀ {cs : List Char}, cs ≠ [] →
        String.ofList (if b.negative then '-' :: cs else cs) ≠ "" := by
      intro cs hcs
      rw [ne_eq, String.ofList_eq_empty_iff]
      split
      · simp
      · exact hcs
    apply hmagnitude
    split
    · simp
    · extract_lets s ds e
      split
      · exact hpositional ds s.exponent
      · exact hexponent ds e

/-- No value spells a blank identifier. -/
theorem toId?_ne_blank {v : Value} {id : String} (h : v.toId? = some id) : id ≠ "" := by
  cases v with
  | text s =>
      rw [toId?] at h
      split at h
      · cases h
      · rename_i hsome
        rw [← Option.some.inj h]
        simpa using hsome
  | int n =>
      rw [← Option.some.inj h, render]
      cases n with
      | ofNat n => exact Nat.repr_ne_empty
      | negSucc n => simp [toString, Int.repr]
  | float x =>
      rw [← Option.some.inj h, render]
      exact floatText_ne_blank x
  | null => cases h
  | bool _ => cases h
  | list _ => cases h
  | object _ => cases h

end Value

theorem Value.find?_insertMember (k j : String) (v : Value) (members : List (String × Value)) :
    (insertMember k v members).find? (fun m => m.1 == j) =
      if k = j then some (k, v) else members.find? (fun m => m.1 == j) := by
  induction members with
  | nil => simp [insertMember]
  | cons e rest ih =>
      obtain ⟨i, w⟩ := e
      unfold insertMember
      by_cases hkj : k = j
      · subst hkj
        split
        · simp
        · split
          · simp
          · rename_i hne
            simpa [hne] using ih
      · split
        · simp [hkj]
        · split
          · rename_i hik
            simp [hik, hkj]
          · simp only [List.find?_cons, ih, if_neg hkj]

namespace Record

variable {r : Record} {k : ForeignKey}

/-- A written field answers the new value, every other field what it answered before. -/
@[simp] theorem get?_set (r : Record) (field other : String) (v : Value) :
    (r.set field v).get? other = if field = other then some v else r.get? other := by
  simp only [get?, set, Value.find?_insertMember]
  split
  · rfl
  · rfl

/-- A dropped field answers nothing. -/
@[simp] theorem get?_remove (r : Record) (field other : String) :
    (r.remove field).get? other = if field = other then none else r.get? other := by
  simp only [get?, remove, List.find?_filter]
  by_cases hfield : field = other
  · subst hfield
    simp
  · simp only [if_neg hfield]
    congr 2
    funext f
    by_cases hf : f.1 = other
    · simp [hf, Ne.symm hfield]
    · simp [hf]

/-- Whatever is written to a foreign key, the record keeps its identifier and its kind. -/
@[simp] theorem id_setReferenceIds (r : Record) (field column : String) (ids : List String)
    (c : Cardinality) : (r.setReferenceIds field column ids c).id = r.id := by
  unfold setReferenceIds
  split <;> rfl

@[simp] theorem entityType_setReferenceIds (r : Record) (field column : String)
    (ids : List String) (c : Cardinality) :
    (r.setReferenceIds field column ids c).entityType = r.entityType := by
  unfold setReferenceIds
  split <;> rfl

@[simp] theorem bundle_setReferenceIds (r : Record) (field column : String) (ids : List String)
    (c : Cardinality) : (r.setReferenceIds field column ids c).bundle = r.bundle := by
  unfold setReferenceIds
  split <;> rfl

end Record

namespace Cardinality

/-- Those of the identifiers that a key of the cardinality keeps. -/
def keeps (c : Cardinality) (ids : List String) : List String :=
  match c with
  | .single => ids.take 1
  | .multiple => ids

theorem mem_of_mem_keeps {c : Cardinality} {ids : List String} {id : String}
    (h : id ∈ c.keeps ids) : id ∈ ids := by
  cases c with
  | single => exact List.mem_of_mem_take h
  | multiple => exact h

end Cardinality

/-- The field is named without a point, so that the path of the key leads to it. -/
def ForeignKey.Plain (k : ForeignKey) : Prop := '.' ∉ k.field.toList

instance (k : ForeignKey) : Decidable k.Plain := inferInstanceAs (Decidable (_ ∉ _))

namespace Record

variable {r : Record} {k j : ForeignKey}

/-- The path of a plain key leads to its own field. -/
theorem valuesAt_path (h : k.Plain) (r : Record) (column : String) :
    r.valuesAt (k.field ++ "." ++ column) = r.fieldValues k.field (some column) := by
  have hchars : (k.field ++ "." ++ column).toList = k.field.toList ++ '.' :: column.toList := by
    simp
  have hpoint : '.' ∈ (k.field ++ "." ++ column).toList := by
    simp [hchars]
  have hid : k.field ++ "." ++ column ≠ idField := by
    intro hequal
    rw [hequal] at hpoint
    exact absurd hpoint (by decide)
  have hbundle : k.field ++ "." ++ column ≠ bundleField := by
    intro hequal
    rw [hequal] at hpoint
    exact absurd hpoint (by decide)
  have hplain : ∀ a ∈ k.field.toList, decide (a ≠ '.') = true := by
    rintro a ha
    simp only [ne_eq, decide_eq_true_eq]
    rintro rfl
    exact h ha
  have hsplit : splitPath (k.field ++ "." ++ column).toList =
      (k.field.toList, some column.toList) := by
    rw [splitPath, hchars, List.dropWhile_append_of_pos hplain,
      List.takeWhile_append_of_pos hplain]
    simp
  rw [valuesAt, if_neg hid, if_neg hbundle, hsplit]
  simp

theorem referenceIds_eq (h : k.Plain) (r : Record) (column : String) :
    r.referenceIds k.field column =
      (r.fieldValues k.field (some column)).filterMap Value.toId? := by
  rw [referenceIds, valuesAt_path h]

/-- A plain key is read off its field alone. -/
theorem referenceIds_congr (h : k.Plain) {s : Record} (hsame : s.get? k.field = r.get? k.field)
    (column : String) : s.referenceIds k.field column = r.referenceIds k.field column := by
  rw [referenceIds_eq h, referenceIds_eq h, fieldValues, fieldValues, hsame]

/-- No foreign key holds a blank identifier. -/
theorem ne_blank_of_mem_referenceIds {field column id : String}
    (h : id ∈ r.referenceIds field column) : id ≠ "" := by
  obtain ⟨v, -, hv⟩ := List.mem_filterMap.mp h
  exact Value.toId?_ne_blank hv

/-- The items of a foreign key are read back, unless their identifiers are blank. -/
theorem filterMap_toId?_items (written column : String) (ids : List String) :
    (((ids.map fun id => Value.object [(written, .text id)]).filterMap
        (·.member? column)).filter fun v => !v.isNull).filterMap Value.toId? =
      if written = column then ids.filter (· ≠ "") else [] := by
  have hread : ∀ id, (Value.object [(written, .text id)]).member? column =
      if written = column then some (.text id) else none := by
    intro id
    by_cases hcolumn : written = column
    · simp [Value.member?, hcolumn]
    · simp [Value.member?, hcolumn]
  induction ids with
  | nil => simp
  | cons id rest ih =>
      rw [List.map_cons, List.filterMap_cons, hread]
      by_cases hcolumn : written = column
      · rw [if_pos hcolumn] at ih ⊢
        by_cases hblank : id = ""
        · simpa [Value.toId?, Value.isNull, hcolumn, hblank] using ih
        · simpa [Value.toId?, Value.isNull, hcolumn, hblank] using ih
      · rw [if_neg hcolumn] at ih ⊢
        simpa [hcolumn] using ih

/-- A foreign key holds what was last written to it; a blank identifier is none. What is
written to another column of the field drops it. -/
theorem referenceIds_setReferenceIds (h : k.Plain) (r : Record) (written : String)
    (ids : List String) (c : Cardinality) :
    (r.setReferenceIds k.field written ids c).referenceIds k.field k.column =
      if written = k.column then (c.keeps ids).filter (· ≠ "") else [] := by
  rw [referenceIds_eq h, fieldValues]
  cases ids with
  | nil =>
      cases c with
      | single => simp [setReferenceIds, Cardinality.keeps]
      | multiple => simp [setReferenceIds, Cardinality.keeps]
  | cons id rest =>
      cases c with
      | single =>
          simp only [setReferenceIds, get?_set, if_true]
          exact filterMap_toId?_items written k.column [id]
      | multiple =>
          simp only [setReferenceIds, get?_set, if_true]
          exact filterMap_toId?_items written k.column (id :: rest)

/-- What is written to another field leaves a foreign key as it is. -/
theorem get?_setReferenceIds_of_ne {field other : String} (hne : field ≠ other) (r : Record)
    (written : String) (ids : List String) (c : Cardinality) :
    (r.setReferenceIds field written ids c).get? other = r.get? other := by
  unfold setReferenceIds
  split
  · simp [hne]
  · simp [hne]
  · simp [hne]

theorem valuesAt_setReferenceIds_of_ne (h : k.Plain) {field : String} (hne : field ≠ k.field)
    (r : Record) (written : String) (ids : List String) (c : Cardinality) :
    (r.setReferenceIds field written ids c).valuesAt k.path = r.valuesAt k.path := by
  rw [ForeignKey.path, valuesAt_path h, valuesAt_path h, fieldValues, fieldValues,
    get?_setReferenceIds_of_ne hne]

theorem referenceIds_setReferenceIds_of_ne (h : k.Plain) {field : String} (hne : field ≠ k.field)
    (r : Record) (written : String) (ids : List String) (c : Cardinality) :
    (r.setReferenceIds field written ids c).referenceIds k.field k.column =
      r.referenceIds k.field k.column :=
  congrArg (List.filterMap Value.toId?) (valuesAt_setReferenceIds_of_ne h hne r written ids c)

/-- What is written to a foreign key are texts. -/
theorem text_of_mem_valuesAt_setReferenceIds (h : k.Plain) {r : Record} {written : String}
    {ids : List String} {c : Cardinality} {v : Value}
    (hv : v ∈ (r.setReferenceIds k.field written ids c).valuesAt k.path) :
    ∃ text, v = .text text := by
  have hitem : ∀ written id, (Value.object [(written, .text id)]).member? k.column = some v →
      v = .text id := by
    intro written id hread
    by_cases hcolumn : written = k.column
    · simpa [Value.member?, hcolumn, eq_comm] using hread
    · simp [Value.member?, hcolumn] at hread
  rw [ForeignKey.path, valuesAt_path h, fieldValues] at hv
  cases ids with
  | nil =>
      cases c with
      | single => simp [setReferenceIds] at hv
      | multiple => simp [setReferenceIds] at hv
  | cons id rest =>
      cases c with
      | single =>
          simp only [setReferenceIds, get?_set, if_true, List.mem_filter, List.mem_filterMap,
            List.mem_singleton] at hv
          obtain ⟨⟨item, rfl, hread⟩, -⟩ := hv
          exact ⟨id, hitem written id hread⟩
      | multiple =>
          simp only [setReferenceIds, get?_set, if_true, List.mem_filter, List.mem_filterMap,
            List.mem_map] at hv
          obtain ⟨⟨item, ⟨other, -, rfl⟩, hread⟩, -⟩ := hv
          exact ⟨other, hitem written other hread⟩

end Record

end RecordGraph
