/-
# Filling dictionaries

Collections are filled one model at a time, each under its key. What such a run of writes
leaves is stated here for any dictionary: new keys come behind all others in the order of
their first writing, and a value that is written again changes nothing.
-/
import Mathlib.Data.List.Induction
import Mathlib.Data.List.Nodup
import RecordGraph.Graph.Fetching

namespace RecordGraph

/-- What is left out adds nothing. -/
theorem flatMap_filter {α β : Type} (p : α → Bool) (f : α → List β) (xs : List α) :
    (xs.filter p).flatMap f = xs.flatMap fun x => if p x then f x else [] := by
  induction xs with
  | nil => rfl
  | cons x rest ih =>
      cases hx : p x with
      | true => simp [hx, ih]
      | false => simp [hx, ih]

/-! ## Each member once -/

section Distinct

variable {α β : Type} [DecidableEq α] [DecidableEq β]

theorem distinct_concat (xs : List α) (x : α) :
    distinct (xs ++ [x]) = if x ∈ distinct xs then distinct xs else distinct xs ++ [x] := by
  rw [distinct, List.foldl_append]
  rfl

@[simp] theorem mem_distinct {xs : List α} {x : α} : x ∈ distinct xs ↔ x ∈ xs := by
  induction xs using List.reverseRecOn with
  | nil => simp [distinct]
  | append_singleton xs y ih =>
      rw [distinct_concat]
      split
      · rename_i hy
        rw [ih, List.mem_append, List.mem_singleton]
        constructor
        · exact .inl
        · rintro (hx | rfl)
          · exact hx
          · exact ih.mp hy
      · rw [List.mem_append, List.mem_append, ih]

theorem nodup_distinct (xs : List α) : (distinct xs).Nodup := by
  induction xs using List.reverseRecOn with
  | nil => simp [distinct]
  | append_singleton xs y ih =>
      rw [distinct_concat]
      split
      · exact ih
      · rename_i hy
        rw [List.nodup_append]
        refine ⟨ih, by simp, ?_⟩
        intro x hx z hz
        rw [List.mem_singleton] at hz
        subst hz
        rintro rfl
        exact hy hx

theorem distinct_sublist (xs : List α) : (distinct xs).Sublist xs := by
  induction xs using List.reverseRecOn with
  | nil => exact .slnil
  | append_singleton xs x ih =>
      rw [distinct_concat]
      split
      · exact ih.trans (List.sublist_append_left _ _)
      · exact ih.append (.refl _)

/-- Taking each member once loses none only if none came twice. -/
theorem nodup_of_length_distinct {xs : List α} (h : (distinct xs).length = xs.length) :
    xs.Nodup := by
  rw [← (distinct_sublist xs).eq_of_length h]
  exact nodup_distinct xs

theorem distinct_of_nodup {xs : List α} (h : xs.Nodup) : distinct xs = xs := by
  induction xs using List.reverseRecOn with
  | nil => rfl
  | append_singleton xs x ih =>
      rw [List.nodup_append] at h
      rw [distinct_concat, ih h.1, if_neg]
      intro hx
      exact h.2.2 x hx x (by simp) rfl

/-- Where different members are read as different values, reading and taking each member once
can be done in either order. -/
theorem distinct_filterMap {f : α → Option β} (xs : List α)
    (hinj : ∀ a ∈ xs, ∀ b ∈ xs, ∀ c, f a = some c → f b = some c → a = b) :
    distinct (xs.filterMap f) = (distinct xs).filterMap f := by
  induction xs using List.reverseRecOn with
  | nil => simp [distinct]
  | append_singleton xs y ih =>
      have ih := ih fun a ha b hb =>
        hinj a (List.mem_append_left _ ha) b (List.mem_append_left _ hb)
      rw [List.filterMap_append, distinct_concat]
      cases hy : f y with
      | none =>
          rw [List.filterMap_cons_none hy, List.filterMap_nil, List.append_nil, ih]
          split
          · rfl
          · simp [hy]
      | some c =>
          rw [List.filterMap_cons_some hy, List.filterMap_nil, distinct_concat, ih]
          by_cases hmem : y ∈ distinct xs
          · have hc : c ∈ (distinct xs).filterMap f := List.mem_filterMap.mpr ⟨y, hmem, hy⟩
            rw [if_pos hmem, if_pos hc]
          · have hc : c ∉ (distinct xs).filterMap f := by
              intro hc
              obtain ⟨a, ha, hac⟩ := List.mem_filterMap.mp hc
              have haxs := mem_distinct.mp ha
              have hequal := hinj a (List.mem_append_left _ haxs) y (by simp) c hac hy
              exact hmem (hequal ▸ ha)
            rw [if_neg hmem, if_neg hc, List.filterMap_append]
            simp [hy]

/-- Of two lists the second one adds what the first one does not have. -/
theorem distinct_append (xs ys : List α) :
    distinct (xs ++ ys) = distinct xs ++ (distinct ys).filter fun y => y ∉ xs := by
  induction ys using List.reverseRecOn with
  | nil => simp [distinct]
  | append_singleton ys y ih =>
      rw [← List.append_assoc, distinct_concat, distinct_concat, ih]
      by_cases hxs : y ∈ xs
      · rw [if_pos (by simp [hxs])]
        split
        · rfl
        · simp [hxs]
      · by_cases hys : y ∈ ys
        · rw [if_pos (by simp [hxs, hys]), if_pos (mem_distinct.mpr hys)]
        · rw [if_neg (by simp [hxs, hys]), if_neg (fun h => hys (mem_distinct.mp h))]
          simp [hxs]

/-- Leaving members out and taking each member once can be done in either order. -/
theorem distinct_filter (p : α → Bool) (xs : List α) :
    distinct (xs.filter p) = (distinct xs).filter p := by
  rw [← List.filterMap_eq_filter]
  apply distinct_filterMap
  intro a _ b _ c ha hb
  exact (Option.guard_eq_some_iff.mp ha).1.trans (Option.guard_eq_some_iff.mp hb).1.symm

/-- Pieces that are empty or one and the same list give this list. -/
theorem distinct_flatMap_of_same {γ : Type} {bs : List γ} {f : γ → List α} {ys : List α}
    (hys : ys.Nodup) (hpieces : ∀ b ∈ bs, f b = ys ∨ f b = [])
    (hsome : ys ≠ [] → ∃ b ∈ bs, f b = ys) :
    distinct (bs.flatMap f) = ys := by
  by_cases hnone : ys = []
  · subst hnone
    rw [List.flatMap_eq_nil_iff.mpr fun b hb => or_self_iff.mp (hpieces b hb)]
    rfl
  · obtain ⟨b, hb, hpiece⟩ := hsome hnone
    clear hsome
    induction bs with
    | nil => simp at hb
    | cons c rest ih =>
        have hrest : ∀ b ∈ rest, f b = ys ∨ f b = [] := fun b hb => hpieces b (by simp [hb])
        rw [List.flatMap_cons]
        rcases hpieces c (by simp) with hfirst | hfirst
        · -- whatever follows has been there
          have hadds : (distinct (rest.flatMap f)).filter (fun y => y ∉ ys) = [] := by
            rw [List.filter_eq_nil_iff]
            intro y hy
            obtain ⟨d, hd, hyd⟩ := List.mem_flatMap.mp (mem_distinct.mp hy)
            rcases hrest d hd with hsame | hempty
            · simpa using hsame ▸ hyd
            · simp [hempty] at hyd
          rw [hfirst, distinct_append, distinct_of_nodup hys, hadds, List.append_nil]
        · have hb' : b ∈ rest := by
            rcases List.mem_cons.mp hb with rfl | hb'
            · exact absurd (hpiece.symm.trans hfirst) hnone
            · exact hb'
          rw [hfirst, List.nil_append]
          exact ih hrest hb'

/-- Copies of the members of a list, any number of each, give the members that have a copy. -/
theorem distinct_flatMap_of_copies {xs : List α} {f : α → List α} (hxs : xs.Nodup)
    (hcopies : ∀ x ∈ xs, ∀ y ∈ f x, y = x) :
    distinct (xs.flatMap f) = xs.filter fun x => x ∈ f x := by
  induction xs with
  | nil => rfl
  | cons x rest ih =>
      rw [List.nodup_cons] at hxs
      have hrest := ih hxs.2 fun y hy => hcopies y (by simp [hy])
      have hothers : (distinct (rest.flatMap f)).filter (fun y => y ∉ f x) =
          distinct (rest.flatMap f) := by
        rw [List.filter_eq_self]
        intro y hy
        rw [hrest, List.mem_filter] at hy
        rw [decide_eq_true_eq]
        intro hyx
        exact hxs.1 (hcopies x (by simp) y hyx ▸ hy.1)
      rw [List.flatMap_cons, distinct_append, hothers, hrest]
      by_cases hx : x ∈ f x
      · have hfirst : distinct (f x) = [x] := by
          have hmem : ∀ y, y ∈ distinct (f x) ↔ y ∈ [x] := by
            intro y
            rw [mem_distinct, List.mem_singleton]
            exact ⟨hcopies x (by simp) y, fun hy => hy ▸ hx⟩
          exact List.perm_singleton.mp
            ((List.perm_ext_iff_of_nodup (nodup_distinct _) (by simp)).mpr hmem)
        rw [hfirst, List.filter_cons_of_pos (by simpa using hx)]
        rfl
      · have hnone : f x = [] := by
          rw [List.eq_nil_iff_forall_not_mem]
          intro y hy
          exact hx (hcopies x (by simp) y hy ▸ hy)
        rw [List.filter_cons_of_neg (by simpa using hx), hnone]
        rfl

end Distinct

namespace OrderedMap

variable {κ α : Type} [DecidableEq κ]

/-! ## Look-up and entries -/

theorem mem_entries_of_lookup {k : κ} {a : α} {es : List (κ × α)} (h : lookup k es = some a) :
    (k, a) ∈ es := by
  induction es with
  | nil => simp [lookup] at h
  | cons e rest ih =>
      obtain ⟨j, b⟩ := e
      rw [lookup] at h
      split at h
      · rename_i hj
        rw [Option.some.injEq] at h
        simp [hj, h]
      · exact List.mem_cons_of_mem _ (ih h)

theorem lookup_of_mem_entries {k : κ} {a : α} {es : List (κ × α)}
    (hdistinct : (es.map Prod.fst).Nodup) (h : (k, a) ∈ es) : lookup k es = some a := by
  induction es with
  | nil => simp at h
  | cons e rest ih =>
      obtain ⟨j, b⟩ := e
      rw [List.map_cons, List.nodup_cons] at hdistinct
      rw [lookup]
      rcases List.mem_cons.mp h with hhead | htail
      · rw [Prod.mk.injEq] at hhead
        rw [if_pos hhead.1.symm, hhead.2]
      · have hne : j ≠ k := by
          rintro rfl
          exact hdistinct.1 (List.mem_map.mpr ⟨_, htail, rfl⟩)
        rw [if_neg hne]
        exact ih hdistinct.2 htail

/-- A key answers a value exactly when the two form an entry. -/
theorem get?_eq_some_iff {m : OrderedMap κ α} {k : κ} {a : α} :
    m.get? k = some a ↔ (k, a) ∈ m.entries :=
  ⟨mem_entries_of_lookup, lookup_of_mem_entries m.distinct⟩

theorem mem_values_iff {m : OrderedMap κ α} {a : α} :
    a ∈ m.values ↔ ∃ k, m.get? k = some a := by
  simp [values, get?_eq_some_iff]

/-- What holds of every entry and of a new one holds of every entry after it is written. -/
theorem forall_get?_insert {m : OrderedMap κ α} {p : κ → α → Prop}
    (h : ∀ j b, m.get? j = some b → p j b) {k : κ} {a : α} (hp : p k a) (j : κ) (b : α)
    (hb : (m.insert k a).get? j = some b) : p j b := by
  rw [get?_insert] at hb
  split at hb
  · rename_i hkey
    obtain rfl := Option.some.inj hb
    exact hkey ▸ hp
  · exact h j b hb

theorem get?_of_get?_erase {m : OrderedMap κ α} {k j : κ} {a : α}
    (h : (m.erase k).get? j = some a) : m.get? j = some a := by
  rw [get?_erase] at h
  split at h
  · simp at h
  · exact h

theorem get?_of_get?_sortBy {m : OrderedMap κ α} {le : κ × α → κ × α → Bool} {k : κ} {a : α}
    (h : (m.sortBy le).get? k = some a) : m.get? k = some a := by
  rw [get?_eq_some_iff] at h ⊢
  exact List.mem_mergeSort.mp h

/-- What stands under a key after renaming stood under a key that was renamed to it. -/
theorem get?_of_get?_renameKeys {m : OrderedMap κ α} {rename : κ → κ} {k : κ} {a : α}
    (h : (m.renameKeys rename).get? k = some a) :
    ∃ before, m.get? before = some a ∧ rename before = k := by
  have hwritten : ∀ (es : List (κ × α)) (start : OrderedMap κ α),
      (es.foldl (fun m e => m.insert e.1 e.2) start).get? k = some a →
        start.get? k = some a ∨ (k, a) ∈ es := by
    intro es
    induction es with
    | nil => exact fun start hstart => .inl hstart
    | cons e rest ih =>
        intro start hlast
        rcases ih _ hlast with hinsert | hrest
        · rw [get?_insert] at hinsert
          split at hinsert
          · rename_i hkey
            have hentry : (k, a) = e := Prod.ext hkey.symm (Option.some.inj hinsert).symm
            exact .inr (List.mem_cons.mpr (.inl hentry))
          · exact .inl hinsert
        · exact .inr (List.mem_cons_of_mem e hrest)
  rcases hwritten _ _ h with hempty | hmem
  · simp at hempty
  · obtain ⟨⟨before, x⟩, hentry, hsame⟩ := List.mem_map.mp hmem
    obtain ⟨hkey, rfl⟩ := Prod.mk.inj hsame
    exact ⟨before, get?_eq_some_iff.mpr hentry, hkey⟩

/-- A dictionary that answers one key only has one entry. -/
theorem eq_singleton {m : OrderedMap κ α} {k : κ} {a : α}
    (h : ∀ j, m.get? j = if k = j then some a else none) : m = empty.insert k a := by
  have hmem : ∀ e, e ∈ m.entries ↔ e = (k, a) := by
    intro e
    obtain ⟨j, b⟩ := e
    rw [← get?_eq_some_iff, h j]
    by_cases hj : k = j
    · subst hj
      simp [eq_comm]
    · simp [hj, Ne.symm hj]
  have hnodup : m.entries.Nodup := List.Nodup.of_map Prod.fst m.distinct
  refine ext ?_
  change m.entries = [(k, a)]
  exact List.perm_singleton.mp ((List.perm_ext_iff_of_nodup hnodup (by simp)).mpr
    fun e => by rw [hmem, List.mem_singleton])

theorem entries_insert_of_not_mem {m : OrderedMap κ α} {k : κ} (h : k ∉ m.keys) (a : α) :
    (m.insert k a).entries = m.entries ++ [(k, a)] := by
  have hwrite : ∀ es : List (κ × α), k ∉ es.map Prod.fst → write k a es = es ++ [(k, a)] := by
    intro es
    induction es with
    | nil => intro _; rfl
    | cons e rest ih =>
        intro hes
        rw [List.map_cons, List.mem_cons, not_or] at hes
        rw [write, if_neg (Ne.symm hes.1), ih hes.2, List.cons_append]
  exact hwrite m.entries h

/-- Writing what a key already answers changes nothing. -/
theorem insert_of_get? {m : OrderedMap κ α} {k : κ} {a : α} (h : m.get? k = some a) :
    m.insert k a = m := by
  have hwrite : ∀ es : List (κ × α), lookup k es = some a → write k a es = es := by
    intro es
    induction es with
    | nil => intro hes; simp [lookup] at hes
    | cons e rest ih =>
        intro hes
        obtain ⟨j, b⟩ := e
        rw [lookup] at hes
        split at hes
        · rename_i hj
          rw [Option.some.injEq] at hes
          rw [write, if_pos hj, ← hes, ← hj]
        · rename_i hj
          rw [write, if_neg hj, ih hes]
  exact ext (hwrite m.entries h)

/-- Writing the entries of a dictionary into an empty one gives the dictionary again. -/
theorem ofList_entries (m : OrderedMap κ α) : ofList m.entries = m := by
  suffices hwritten : ∀ es : List (κ × α), (es.map Prod.fst).Nodup →
      (ofList es).entries = es from ext (hwritten m.entries m.distinct)
  intro es
  induction es using List.reverseRecOn with
  | nil => exact fun _ => rfl
  | append_singleton es e ih =>
      intro hdistinct
      rw [List.map_append, List.nodup_append] at hdistinct
      have ih := ih hdistinct.1
      have hnew : e.1 ∉ (ofList es).keys := by
        rw [keys, ih]
        exact fun hmem => hdistinct.2.2 e.1 hmem e.1 (by simp) rfl
      rw [ofList, List.foldl_append, List.foldl_cons, List.foldl_nil]
      exact (entries_insert_of_not_mem hnew e.2).trans (by rw [ih])

/-! ## Renaming keys -/

section Renaming

theorem ofList_concat (es : List (κ × α)) (e : κ × α) :
    ofList (es ++ [e]) = (ofList es).insert e.1 e.2 := by
  rw [ofList, List.foldl_append]
  rfl

/-- The keys of entries that are written one after the other, each where it came first. -/
theorem keys_ofList (es : List (κ × α)) :
    (ofList es).keys = RecordGraph.distinct (es.map Prod.fst) := by
  induction es using List.reverseRecOn with
  | nil => rfl
  | append_singleton es e ih =>
      rw [ofList_concat, keys_insert, ih, List.map_append, List.map_singleton, distinct_concat]

/-- Entries under different keys are kept as they are. -/
theorem entries_ofList {es : List (κ × α)} (h : (es.map Prod.fst).Nodup) :
    (ofList es).entries = es :=
  congrArg entries (ofList_entries ⟨es, h⟩)

theorem filter_write (p : κ → Bool) (k : κ) (a : α) (es : List (κ × α)) :
    (write k a es).filter (fun e => p e.1) =
      if p k then write k a (es.filter fun e => p e.1) else es.filter fun e => p e.1 := by
  induction es with
  | nil => cases hp : p k <;> simp [write, hp]
  | cons e rest ih =>
      obtain ⟨j, b⟩ := e
      by_cases hj : j = k
      · subst hj
        cases hp : p j <;> simp [write, hp]
      · cases hp : p k <;> cases hq : p j <;> simp [write, hj, hp, hq, ih]

/-- Entries can be left out by their keys before or after they are written. -/
theorem filter_entries_ofList (p : κ → Bool) (es : List (κ × α)) :
    (ofList es).entries.filter (fun e => p e.1) =
      (ofList (es.filter fun e => p e.1)).entries := by
  induction es using List.reverseRecOn with
  | nil => rfl
  | append_singleton es e ih =>
      rw [ofList_concat, insert, filter_write, ih, List.filter_append]
      cases hp : p e.1 with
      | false => simp [hp]
      | true => simp [hp, ofList_concat, insert]

variable {m : OrderedMap κ α} {rename : κ → κ}

theorem keys_renameKeys (m : OrderedMap κ α) (rename : κ → κ) :
    (m.renameKeys rename).keys = RecordGraph.distinct (m.keys.map rename) := by
  rw [renameKeys, keys_ofList, keys, List.map_map, List.map_map]
  rfl

/-- Where no two keys meet, renaming changes nothing but the keys. -/
theorem entries_renameKeys (h : (m.keys.map rename).Nodup) :
    (m.renameKeys rename).entries = m.entries.map fun e => (rename e.1, e.2) := by
  apply entries_ofList
  simpa [keys, Function.comp_def] using h

/-- Where two keys meet, an entry is lost. -/
theorem values_renameKeys_iff :
    (m.renameKeys rename).values = m.values ↔ (m.keys.map rename).Nodup := by
  constructor
  · intro h
    have hlength : (m.renameKeys rename).keys.length = m.keys.length := by
      simpa [values, keys] using congrArg List.length h
    apply nodup_of_length_distinct
    rw [← keys_renameKeys, hlength, List.length_map]
  · intro h
    rw [values, entries_renameKeys h, List.map_map]
    rfl

end Renaming

/-! ## Writing many values, each under its key -/

/-- Writes values one after the other, each under the key that `key` gives it. -/
def insertAll (key : α → κ) (m : OrderedMap κ α) (xs : List α) : OrderedMap κ α :=
  xs.foldl (fun m x => m.insert (key x) x) m

variable {key : α → κ}

@[simp] theorem insertAll_nil (m : OrderedMap κ α) : m.insertAll key [] = m := rfl

theorem insertAll_concat (m : OrderedMap κ α) (xs : List α) (x : α) :
    m.insertAll key (xs ++ [x]) = (m.insertAll key xs).insert (key x) x := by
  simp [insertAll]

theorem insertAll_append (m : OrderedMap κ α) (xs ys : List α) :
    m.insertAll key (xs ++ ys) = (m.insertAll key xs).insertAll key ys :=
  List.foldl_append

theorem keys_insertAll_empty (key : α → κ) (xs : List α) :
    (empty.insertAll key xs).keys = RecordGraph.distinct (xs.map key) := by
  induction xs using List.reverseRecOn with
  | nil => rfl
  | append_singleton xs x ih =>
      rw [insertAll_concat, keys_insert, ih, List.map_append, List.map_singleton, distinct_concat]

/-- Of the values of a key the last one is found, or what was there if there are none. -/
theorem get?_insertAll (m : OrderedMap κ α) (xs : List α) (k : κ) :
    (m.insertAll key xs).get? k = (xs.filter fun x => key x = k).getLast?.or (m.get? k) := by
  induction xs using List.reverseRecOn with
  | nil => rfl
  | append_singleton xs x ih =>
      rw [insertAll_concat, get?_insert, List.filter_append, List.getLast?_append]
      by_cases hkey : key x = k
      · simp [hkey]
      · simp [hkey, ih]

/-- Of the values that are written under one key the last one is found. -/
theorem get?_foldl_insert (m : OrderedMap κ α) (xs : List α) (k : κ) :
    (xs.foldl (fun m x => m.insert k x) m).get? k = xs.getLast?.or (m.get? k) := by
  change (m.insertAll (fun _ => k) xs).get? k = _
  rw [get?_insertAll, List.filter_eq_self.mpr (by simp)]

/-- Of the values of one key the last one is answered. -/
theorem get?_insertAll_of_mem {m : OrderedMap κ α} {xs : List α} {x : α} (hx : x ∈ xs)
    (hinj : ∀ y ∈ xs, key y = key x → y = x) : (m.insertAll key xs).get? (key x) = some x := by
  induction xs using List.reverseRecOn with
  | nil => simp at hx
  | append_singleton xs y ih =>
      rw [insertAll_concat, get?_insert]
      by_cases hkey : key y = key x
      · rw [if_pos hkey, hinj y (by simp) hkey]
      · rw [if_neg hkey]
        have hne : x ≠ y := by
          rintro rfl
          exact hkey rfl
        have hx' : x ∈ xs := by simpa [hne] using hx
        exact ih hx' fun z hz => hinj z (List.mem_append_left _ hz)

/-- Nothing is found after a run of writes but what was there and what was written. -/
theorem mem_values_of_insertAll {m : OrderedMap κ α} {xs : List α} {a : α}
    (h : a ∈ (m.insertAll key xs).values) : a ∈ m.values ∨ a ∈ xs := by
  obtain ⟨k, hk⟩ := mem_values_iff.mp h
  clear h
  induction xs using List.reverseRecOn with
  | nil => exact .inl (mem_values_iff.mpr ⟨k, hk⟩)
  | append_singleton xs y ih =>
      rw [insertAll_concat, get?_insert] at hk
      split at hk
      · rw [Option.some.injEq] at hk
        simp [hk]
      · rcases ih hk with hold | hwritten
        · exact .inl hold
        · exact .inr (List.mem_append_left _ hwritten)

/-- A run of writes adds no other keys than those it writes under. -/
theorem mem_keys_of_insertAll {m : OrderedMap κ α} {xs : List α} {k : κ}
    (h : k ∈ (m.insertAll key xs).keys) : k ∈ m.keys ∨ ∃ x ∈ xs, key x = k := by
  induction xs using List.reverseRecOn with
  | nil => exact .inl h
  | append_singleton xs y ih =>
      rw [insertAll_concat, keys_insert] at h
      have hlater : ∀ {x}, x ∈ xs → x ∈ xs ++ [y] := fun hx => List.mem_append_left _ hx
      split at h
      · exact (ih h).imp_right fun ⟨x, hx, hkey⟩ => ⟨x, hlater hx, hkey⟩
      · rcases List.mem_append.mp h with hold | hlast
        · exact (ih hold).imp_right fun ⟨x, hx, hkey⟩ => ⟨x, hlater hx, hkey⟩
        · exact .inr ⟨y, by simp, (List.mem_singleton.mp hlast).symm⟩

/-- A map filled by inserting members of a list holds what it held before, and those members. -/
theorem get?_foldl_of_inserts {step : OrderedMap κ α → α → OrderedMap κ α}
    (hstep : ∀ found a, step found a = found ∨ ∃ k, step found a = found.insert k a)
    {rest : List α} {found : OrderedMap κ α} {k : κ} {a : α}
    (ha : (rest.foldl step found).get? k = some a) : found.get? k = some a ∨ a ∈ rest := by
  induction rest generalizing found with
  | nil => exact .inl ha
  | cons b rest ih =>
      rcases ih ha with ha | ha
      · obtain hsame | ⟨key, hnew⟩ := hstep found b
        · exact .inl (hsame ▸ ha)
        · rw [hnew, get?_insert] at ha
          split at ha
          · exact .inr (Option.some.inj ha ▸ List.mem_cons_self)
          · exact .inl ha
      · exact .inr (List.mem_cons_of_mem _ ha)

/-- Values under new, different keys come behind the entries that were there, each once, in
the order of their first writing. -/
theorem entries_insertAll [DecidableEq α] {m : OrderedMap κ α} {xs : List α}
    (hnew : ∀ x ∈ xs, key x ∉ m.keys) (hinj : ∀ x ∈ xs, ∀ y ∈ xs, key x = key y → x = y) :
    (m.insertAll key xs).entries =
      m.entries ++ (RecordGraph.distinct xs).map fun x => (key x, x) := by
  induction xs using List.reverseRecOn with
  | nil => simp [RecordGraph.distinct]
  | append_singleton xs y ih =>
      have hnewBefore : ∀ x ∈ xs, key x ∉ m.keys := fun x hx =>
        hnew x (List.mem_append_left _ hx)
      have hinjBefore : ∀ x ∈ xs, ∀ z ∈ xs, key x = key z → x = z := fun x hx z hz =>
        hinj x (List.mem_append_left _ hx) z (List.mem_append_left _ hz)
      have ih := ih hnewBefore hinjBefore
      rw [insertAll_concat, distinct_concat]
      by_cases hy : y ∈ RecordGraph.distinct xs
      · have hmem := mem_distinct.mp hy
        rw [if_pos hy, insert_of_get?, ih]
        exact get?_insertAll_of_mem hmem fun z hz hkey => hinjBefore z hz y hmem hkey
      · have hkey : key y ∉ (m.insertAll key xs).keys := by
          rw [keys, ih]
          simp only [List.map_append, List.map_map, List.mem_append, List.mem_map, not_or]
          refine ⟨fun hold => hnew y (by simp) (List.mem_map.mpr hold), ?_⟩
          rintro ⟨z, hz, hzy⟩
          have hequal := hinj z (List.mem_append_left _ (mem_distinct.mp hz)) y (by simp) hzy
          exact hy (hequal ▸ hz)
        rw [if_neg hy, entries_insert_of_not_mem hkey, ih]
        simp

/-- The values that a run of writes under new, different keys leaves. -/
theorem values_insertAll [DecidableEq α] {m : OrderedMap κ α} {xs : List α}
    (hnew : ∀ x ∈ xs, key x ∉ m.keys) (hinj : ∀ x ∈ xs, ∀ y ∈ xs, key x = key y → x = y) :
    (m.insertAll key xs).values = m.values ++ RecordGraph.distinct xs := by
  simp [values, entries_insertAll hnew hinj, Function.comp_def]

/-- Values whose keys differ fill an empty dictionary as they are. -/
theorem values_insertAll_empty [DecidableEq α] {xs : List α} (h : (xs.map key).Nodup) :
    (empty.insertAll key xs).values = xs := by
  have hinj : ∀ x ∈ xs, ∀ y ∈ xs, key x = key y → x = y :=
    fun x hx y hy => List.inj_on_of_nodup_map h hx hy
  rw [values_insertAll (by simp) hinj, distinct_of_nodup (List.Nodup.of_map key h)]
  rfl

end OrderedMap

end RecordGraph
