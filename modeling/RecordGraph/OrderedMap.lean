/-
# Dictionaries in insertion order

Loaded relationships, members of a collection, sort orders and stored records are all
read back in the order in which their keys were first written. A dictionary here is the
list of its entries; that no key occurs twice is part of the type, so writing a known key
changes its value in place and every other key keeps its position.
-/

namespace RecordGraph

/-- Entries in the order in which their keys were first written, each key once. -/
structure OrderedMap (κ α : Type) where
  /-- The entries, oldest key first. -/
  entries : List (κ × α)
  /-- No key is listed twice. -/
  distinct : (entries.map Prod.fst).Nodup

namespace OrderedMap

variable {κ α : Type}

/-- The dictionary without entries. -/
def empty : OrderedMap κ α := ⟨[], by simp⟩

instance : Inhabited (OrderedMap κ α) := ⟨empty⟩

/-- Two dictionaries with the same entries in the same order are the same. -/
@[ext] theorem ext {m n : OrderedMap κ α} (h : m.entries = n.entries) : m = n := by
  cases m; cases n; simp_all

/-- The keys, oldest first. -/
def keys (m : OrderedMap κ α) : List κ := m.entries.map Prod.fst

/-- The values, in the order of their keys. -/
def values (m : OrderedMap κ α) : List α := m.entries.map Prod.snd

/-- Number of entries. -/
def size (m : OrderedMap κ α) : Nat := m.entries.length

/-- Whether there is no entry. -/
def isEmpty (m : OrderedMap κ α) : Bool := m.entries.isEmpty

/-- The oldest entry's value. -/
def first? (m : OrderedMap κ α) : Option α := m.values.head?

@[simp] theorem entries_empty : (empty : OrderedMap κ α).entries = [] := rfl

@[simp] theorem keys_empty : (empty : OrderedMap κ α).keys = [] := rfl

theorem keys_nodup (m : OrderedMap κ α) : m.keys.Nodup := m.distinct

variable [DecidableEq κ]

/-- The first entry of a list that carries the key. -/
def lookup (k : κ) : List (κ × α) → Option α
  | [] => none
  | (j, a) :: rest => if j = k then some a else lookup k rest

/-- Writes a value under a key: in place if the list has the key, else at the end. -/
def write (k : κ) (a : α) : List (κ × α) → List (κ × α)
  | [] => [(k, a)]
  | (j, b) :: rest => if j = k then (k, a) :: rest else (j, b) :: write k a rest

theorem map_fst_write (k : κ) (a : α) (es : List (κ × α)) :
    (write k a es).map Prod.fst =
      if k ∈ es.map Prod.fst then es.map Prod.fst else es.map Prod.fst ++ [k] := by
  induction es with
  | nil => simp [write]
  | cons e rest ih =>
    obtain ⟨j, b⟩ := e
    by_cases h : j = k
    · subst h; simp [write]
    · have h' : ¬ k = j := fun e => h e.symm
      by_cases hm : k ∈ rest.map Prod.fst
      · simp_all [write]
      · simp_all [write]

theorem nodup_write (k : κ) (a : α) {es : List (κ × α)} (h : (es.map Prod.fst).Nodup) :
    ((write k a es).map Prod.fst).Nodup := by
  rw [map_fst_write]
  split
  · exact h
  · rename_i hk
    rw [List.nodup_append]
    refine ⟨h, by simp, ?_⟩
    intro x hx y hy
    simp only [List.mem_singleton] at hy
    subst hy
    intro e
    exact hk (e ▸ hx)

/-- The value under a key. -/
def get? (m : OrderedMap κ α) (k : κ) : Option α := lookup k m.entries

/-- Whether the key has an entry. -/
def contains (m : OrderedMap κ α) (k : κ) : Bool := (m.get? k).isSome

/-- Writes a value under a key; a known key keeps its position. -/
def insert (m : OrderedMap κ α) (k : κ) (a : α) : OrderedMap κ α :=
  ⟨write k a m.entries, nodup_write k a m.distinct⟩

/-- Drops the entry of a key; the others keep their order. -/
def erase (m : OrderedMap κ α) (k : κ) : OrderedMap κ α :=
  ⟨m.entries.filter (fun e => e.1 ≠ k),
    List.Sublist.nodup (List.filter_sublist.map Prod.fst) m.distinct⟩

/-- Entries written one after the other into an empty dictionary. -/
def ofList (es : List (κ × α)) : OrderedMap κ α :=
  es.foldl (fun m e => m.insert e.1 e.2) empty

/-- Every key is renamed. Where two keys meet, the older position and the newer value stay. -/
def renameKeys (m : OrderedMap κ α) (rename : κ → κ) : OrderedMap κ α :=
  ofList (m.entries.map fun e => (rename e.1, e.2))

/-- A stable rearrangement of the entries by an order on them. -/
def sortBy (m : OrderedMap κ α) (le : κ × α → κ × α → Bool) : OrderedMap κ α :=
  ⟨m.entries.mergeSort le,
    (((List.mergeSort_perm m.entries le).map Prod.fst).nodup_iff).2 m.distinct⟩

/-! ## What the operations do to look-up and to the list of keys -/

@[simp] theorem get?_empty (k : κ) : (empty : OrderedMap κ α).get? k = none := rfl

theorem lookup_write (k : κ) (a : α) (es : List (κ × α)) (j : κ) :
    lookup j (write k a es) = if k = j then some a else lookup j es := by
  induction es with
  | nil => simp [write, lookup]
  | cons e rest ih =>
    obtain ⟨i, b⟩ := e
    by_cases h : i = k
    · subst h
      by_cases hj : i = j <;> simp [write, lookup, hj]
    · by_cases hj : i = j
      · subst hj
        have h' : ¬ k = i := fun e => h e.symm
        simp [write, lookup, h, h']
      · simp [write, lookup, h, hj, ih]

/-- A written key answers the new value, every other key what it answered before. -/
@[simp] theorem get?_insert (m : OrderedMap κ α) (k : κ) (a : α) (j : κ) :
    (m.insert k a).get? j = if k = j then some a else m.get? j :=
  lookup_write k a m.entries j

theorem lookup_filter_ne (k : κ) (es : List (κ × α)) (j : κ) :
    lookup j (es.filter (fun e => e.1 ≠ k)) = if k = j then none else lookup j es := by
  induction es with
  | nil => simp [lookup]
  | cons e rest ih =>
    obtain ⟨i, b⟩ := e
    by_cases h : i = k
    · subst h
      by_cases hj : i = j <;> simp_all [lookup]
    · by_cases hj : i = j
      · subst hj
        have h' : ¬ k = i := fun e => h e.symm
        simp [lookup, h, h']
      · simp_all [lookup]

/-- A dropped key answers nothing, every other key what it answered before. -/
@[simp] theorem get?_erase (m : OrderedMap κ α) (k j : κ) :
    (m.erase k).get? j = if k = j then none else m.get? j :=
  lookup_filter_ne k m.entries j

theorem lookup_isSome_iff (k : κ) (es : List (κ × α)) :
    (lookup k es).isSome ↔ k ∈ es.map Prod.fst := by
  induction es with
  | nil => simp [lookup]
  | cons e rest ih =>
    obtain ⟨j, b⟩ := e
    by_cases h : j = k
    · simp [lookup, h]
    · have h' : ¬ k = j := fun e => h e.symm
      simp_all [lookup]

/-- A key has an entry exactly when it is listed. -/
theorem contains_iff_mem_keys (m : OrderedMap κ α) (k : κ) : m.contains k = true ↔ k ∈ m.keys :=
  lookup_isSome_iff k m.entries

/-- A known key keeps the list of keys as it is; a new one comes last. -/
theorem keys_insert (m : OrderedMap κ α) (k : κ) (a : α) :
    (m.insert k a).keys = if k ∈ m.keys then m.keys else m.keys ++ [k] :=
  map_fst_write k a m.entries

theorem keys_erase (m : OrderedMap κ α) (k : κ) :
    (m.erase k).keys = m.keys.filter (fun j => j ≠ k) := by
  simp [keys, erase, List.filter_map, Function.comp_def]

end OrderedMap

end RecordGraph
