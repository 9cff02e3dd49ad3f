/-
# Histories of the store in memory

A history is what the store has been asked since it was empty, and with it the entity types and
identifiers under which it has stored records on the way, those of records that are gone again
included. However long it is, every record is filed under its own entity type and identifier,
and a record that comes without one takes the place of no other record.

Its new identifier is one under which nothing was ever stored, as long as no stored identifier
has spelled the last number of the numbering. Behind this number the numbering starts again
from zero; it still passes over records that are there, but not over those that are gone.
-/
import Mathlib.Data.List.Perm.Subperm
import Mathlib.Data.Nat.ModEq
import RecordGraph.Proofs.MemoryStores
import RecordGraph.Proofs.WrittenLogic

namespace RecordGraph

namespace MemoryStore

/-! ## Putting a record -/

/-- The identifier under which a record is put: its own, or else a free number. -/
def idFor (s : MemoryStore) (r : Record) : String :=
  r.id.getD (toString (freeId (s.recordsOf r.entityType) (s.recordsOf r.entityType).size s.lastId))

theorem put_fst (s : MemoryStore) (r : Record) : (s.put r).1 = r.withId (s.idFor r) := by
  cases hid : r.id with
  | some id => simp [put, idFor, hid]
  | none => simp [put, idFor, hid]

theorem records_put (s : MemoryStore) (r : Record) : (s.put r).2.records =
    s.records.insert r.entityType
      ((s.recordsOf r.entityType).insert (s.idFor r) (r.withId (s.idFor r))) := by
  cases hid : r.id with
  | some id => simp [put, idFor, hid]
  | none => simp [put, idFor, hid]

theorem seed_fst (s : MemoryStore) (r : Record) : (s.seed r).1 = s.idFor r := by
  have hstored : (s.seed r).1 = (s.put r).1.id.getD "" := rfl
  rw [hstored, put_fst]
  rfl

theorem save_fst (s : MemoryStore) (r : Record) :
    (MemoryStore.save r s).1 = .ok (r.withId (s.idFor r)) := by
  have hstored : (MemoryStore.save r s).1 = .ok (s.put r).1 := rfl
  rw [hstored, put_fst]

theorem get?_recordsOf_put (s : MemoryStore) (r : Record) (entityType id : String) :
    ((s.put r).2.recordsOf entityType).get? id =
      if r.entityType = entityType ∧ s.idFor r = id then some (r.withId (s.idFor r))
      else (s.recordsOf entityType).get? id := by
  rw [recordsOf, records_put, OrderedMap.get?_insert]
  by_cases hentity : r.entityType = entityType
  · subst hentity
    simp
  · simp [hentity, recordsOf]

/-! ## Histories -/

/-- What the store has been asked since it was empty. The list says under which entity types and
identifiers records were stored. -/
inductive History : List (String × String) → MemoryStore → Prop where
  | start : History [] empty
  | seed {log : List (String × String)} {s : MemoryStore} (h : History log s) (r : Record) :
      History (log ++ [(r.entityType, s.idFor r)]) (s.seed r).2
  | save {log : List (String × String)} {s : MemoryStore} (h : History log s) (r : Record) :
      History (log ++ [(r.entityType, s.idFor r)]) (MemoryStore.save r s).2
  | delete {log : List (String × String)} {s : MemoryStore} (h : History log s) (r : Record) :
      History log (MemoryStore.delete r s).2
  /-- A call that neither stores nor removes a record. -/
  | ask {log : List (String × String)} {s s' : MemoryStore} (h : History log s)
      (hrecords : s'.records = s.records) (hlastId : s'.lastId = s.lastId) : History log s'

variable {log : List (String × String)} {s : MemoryStore}

theorem lastId_delete (s : MemoryStore) (r : Record) :
    (MemoryStore.delete r s).2.lastId = s.lastId := by
  unfold MemoryStore.delete
  split <;> rfl

/-- A deletion adds no records. -/
theorem get?_of_get?_delete {r found : Record} {entityType id : String}
    (h : ((MemoryStore.delete r s).2.recordsOf entityType).get? id = some found) :
    (s.recordsOf entityType).get? id = some found := by
  unfold MemoryStore.delete at h
  cases hid : r.id with
  | none => simpa [hid] using h
  | some gone =>
      cases hrecords : s.records.get? r.entityType with
      | none => simpa [hid, hrecords, recordsOf] using h
      | some byId =>
          simp only [hid, hrecords, recordsOf, OrderedMap.get?_insert] at h
          split at h
          · rename_i hentity
            subst hentity
            rw [recordsOf, hrecords]
            exact OrderedMap.get?_of_get?_erase h
          · exact h

namespace History

/-- Every record that is there was filed under its own entity type and identifier. -/
theorem filed (h : History log s) : s.Filed := by
  induction h with
  | start => exact filed_empty
  | seed _ r ih => exact ih.seed r
  | save _ r ih => exact ih.save r
  | delete _ r ih => exact ih.delete r
  | ask _ hrecords _ ih => exact ih.of_records hrecords

/-- What a put leaves behind was there before or is what was put. -/
theorem mem_log_put (ih : ∀ entityType id found,
      (s.recordsOf entityType).get? id = some found → (entityType, id) ∈ log) {r found : Record}
    {entityType id : String} (h : ((s.put r).2.recordsOf entityType).get? id = some found) :
    (entityType, id) ∈ log ++ [(r.entityType, s.idFor r)] := by
  rw [get?_recordsOf_put] at h
  split at h
  · rename_i hput
    simp [hput.1, hput.2]
  · exact List.mem_append_left _ (ih entityType id found h)

/-- Every record that is there was stored at some time. -/
theorem mem_log (h : History log s) {entityType id : String} {found : Record}
    (hget : (s.recordsOf entityType).get? id = some found) : (entityType, id) ∈ log := by
  induction h generalizing entityType id found with
  | start => simp [recordsOf, empty] at hget
  | seed _ r ih => exact mem_log_put (fun _ _ _ => ih) hget
  | save _ r ih => exact mem_log_put (fun _ _ _ => ih) hget
  | delete _ r ih => exact ih (get?_of_get?_delete hget)
  | ask _ hrecords _ ih => exact ih (by rwa [recordsOf, hrecords] at hget)

end History

/-! ## The numbering -/

/-- No identifier spells the last number of the numbering. -/
def Unspent (log : List (String × String)) : Prop :=
  ∀ e ∈ log, Text.word? e.2 ≠ some Text.wordMax

theorem Unspent.of_append {more : List (String × String)} (h : Unspent (log ++ more)) :
    Unspent log := fun e he => h e (List.mem_append_left _ he)

/-- The numbering has not come to its end, and is not behind any number that was stored. -/
structure Numbered (log : List (String × String)) (s : MemoryStore) : Prop where
  unspent : s.lastId < Text.wordMax
  met : ∀ e ∈ log, ∀ n, Text.word? e.2 = some n → n ≤ s.lastId

theorem Numbered.nextId_eq (h : Numbered log s) : nextId s.lastId = s.lastId + 1 :=
  Nat.mod_eq_of_lt (by have := h.unspent; omega)

/-- The next number was not stored before. -/
theorem Numbered.ne_next (h : Numbered log s) {e : String × String} (he : e ∈ log) :
    e.2 ≠ toString (s.lastId + 1) := by
  intro hnext
  have hread : Text.word? e.2 = some (s.lastId + 1) := by
    rw [hnext, Text.word?_toString, if_pos (Nat.succ_le_of_lt h.unspent)]
  exact absurd (h.met e he _ hread) (by omega)

/-- As long as the numbering has not come to its end, its next number is free. -/
theorem Numbered.freeId_eq (h : Numbered log s) {taken : OrderedMap String Record}
    (htaken : ∀ id, taken.contains id = true → ∃ e ∈ log, e.2 = id) (tries : Nat) :
    freeId taken tries s.lastId = s.lastId + 1 := by
  cases tries with
  | zero => exact h.nextId_eq
  | succ tries =>
      rw [freeId, h.nextId_eq, if_neg]
      intro hcontains
      obtain ⟨e, he, hid⟩ := htaken _ hcontains
      exact h.ne_next he hid

namespace History

/-- While the numbering has not come to its end, a new identifier is its next number. -/
theorem idFor_of_numbered (h : History log s) (hnumbered : Numbered log s) {r : Record}
    (hnew : r.id = none) : s.idFor r = toString (s.lastId + 1) := by
  rw [idFor, hnew, Option.getD_none, hnumbered.freeId_eq]
  intro id hcontains
  obtain ⟨found, hfound⟩ := Option.isSome_iff_exists.mp hcontains
  exact ⟨_, h.mem_log hfound, rfl⟩

/-- Putting a record moves the numbering on to the number of its identifier. -/
theorem lastId_put (h : History log s) (hnumbered : Numbered log s) (r : Record) :
    (s.put r).2.lastId = max s.lastId ((Text.word? (s.idFor r)).getD 0) := by
  cases hid : r.id with
  | some id => simp [put, idFor, hid]
  | none =>
      have hnext := h.idFor_of_numbered hnumbered hid
      have hspelled : Text.word? (toString (s.lastId + 1)) = some (s.lastId + 1) := by
        rw [Text.word?_toString, if_pos (Nat.succ_le_of_lt hnumbered.unspent)]
      have hnumber : toString (s.put r).2.lastId = s.idFor r := by
        simp [put, idFor, hid]
      rw [hnext] at hnumber
      rw [hnext, hspelled, Text.toString_inj hnumber, Option.getD_some]
      omega

theorem numbered_put (h : History log s) (hnumbered : Numbered log s) {r : Record}
    (hunspent : Text.word? (s.idFor r) ≠ some Text.wordMax) :
    Numbered (log ++ [(r.entityType, s.idFor r)]) (s.put r).2 := by
  have hlastId := h.lastId_put hnumbered r
  have hread : ∀ n, Text.word? (s.idFor r) = some n → n < Text.wordMax := by
    intro n hn
    have hfits := (Text.word?_eq_some_iff.mp hn).2
    have hne : n ≠ Text.wordMax := fun heq => hunspent (heq ▸ hn)
    omega
  constructor
  · rw [hlastId]
    refine Nat.max_lt.mpr ⟨hnumbered.unspent, ?_⟩
    cases hword : Text.word? (s.idFor r) with
    | none => exact Nat.zero_lt_of_lt hnumbered.unspent
    | some n => exact hread n hword
  · intro e he n hn
    rw [hlastId]
    rcases List.mem_append.mp he with he | he
    · exact Nat.le_trans (hnumbered.met e he n hn) (Nat.le_max_left _ _)
    · rw [List.mem_singleton.mp he] at hn
      rw [hn]
      exact Nat.le_max_right _ _

theorem numbered (h : History log s) (hunspent : Unspent log) : Numbered log s := by
  induction h with
  | start => exact ⟨Nat.succ_pos _, by simp⟩
  | @seed log s h r ih =>
      have hlast := hunspent (r.entityType, s.idFor r) (by simp)
      exact h.numbered_put (ih hunspent.of_append) hlast
  | @save log s h r ih =>
      have hlast := hunspent (r.entityType, s.idFor r) (by simp)
      have hput := h.numbered_put (ih hunspent.of_append) hlast
      exact ⟨hput.unspent, hput.met⟩
  | @delete log s _ r ih =>
      have hbefore := ih hunspent
      have hlastId := s.lastId_delete r
      exact ⟨hlastId ▸ hbefore.unspent, hlastId ▸ hbefore.met⟩
  | ask _ _ hlastId ih =>
      have hbefore := ih hunspent
      exact ⟨hlastId ▸ hbefore.unspent, hlastId ▸ hbefore.met⟩

end History

/-! ## Behind the end of the numbering -/

/-- The numbers that are tried after a number. -/
def candidates : (tries last : Nat) → List Nat
  | 0, last => [nextId last]
  | tries + 1, last => nextId last :: candidates tries (nextId last)

theorem candidates_eq (tries last : Nat) : candidates tries last =
    (List.range (tries + 1)).map fun k => (last + 1 + k) % (Text.wordMax + 1) := by
  induction tries generalizing last with
  | zero => rfl
  | succ tries ih =>
      have hlater : ∀ k, (nextId last + 1 + k) % (Text.wordMax + 1) =
          (last + 1 + (k + 1)) % (Text.wordMax + 1) := by
        intro k
        rw [nextId, Nat.add_assoc, Nat.mod_add_mod]
        congr 1
        omega
      rw [candidates, ih, funext hlater]
      conv_rhs => rw [List.range_succ_eq_map, List.map_cons, List.map_map]
      rfl

/-- The numbering runs through all numbers before it comes to one again. -/
theorem nodup_candidates {tries : Nat} (h : tries ≤ Text.wordMax) (last : Nat) :
    (candidates tries last).Nodup := by
  rw [candidates_eq]
  refine List.Nodup.map_on (fun i hi j hj hsame => ?_) List.nodup_range
  rw [List.mem_range] at hi hj
  have hmod : i ≡ j [MOD Text.wordMax + 1] := Nat.ModEq.add_left_cancel' (last + 1) hsame
  exact hmod.eq_of_lt_of_lt (by omega) (by omega)

theorem freeId_free (taken : OrderedMap String Record) (tries last : Nat) :
    taken.contains (toString (freeId taken tries last)) = false ∨
      ∀ n ∈ candidates tries last, taken.contains (toString n) = true := by
  induction tries generalizing last with
  | zero => simp [freeId, candidates]
  | succ tries ih =>
      rw [freeId, candidates]
      split
      · rename_i hnext
        exact (ih (nextId last)).imp_right fun hrest => List.forall_mem_cons.mpr ⟨hnext, hrest⟩
      · rename_i hnext
        exact .inl (Bool.eq_false_iff.mpr hnext)

/-- Of as many numbers as there are identifiers, and one more, one is free. -/
theorem contains_freeId {taken : OrderedMap String Record} (h : taken.size ≤ Text.wordMax)
    (last : Nat) : taken.contains (toString (freeId taken taken.size last)) = false := by
  refine (freeId_free taken taken.size last).resolve_right fun hall => ?_
  have hnodup : ((candidates taken.size last).map toString).Nodup :=
    (nodup_candidates h last).map fun _ _ => Text.toString_inj
  have hsubset : (candidates taken.size last).map toString ⊆ taken.keys := by
    intro id hid
    obtain ⟨n, hn, rfl⟩ := List.mem_map.mp hid
    exact (taken.contains_iff_mem_keys _).mp (hall n hn)
  have hlength := (hnodup.subperm hsubset).length_le
  rw [List.length_map, candidates_eq, List.length_map, List.length_range] at hlength
  exact absurd hlength (by simp [OrderedMap.keys, OrderedMap.size])

/-- A new record takes the place of no other one, wherever the numbering stands. -/
theorem get?_put_of_new {r : Record} (hnew : r.id = none)
    (hsize : (s.recordsOf r.entityType).size ≤ Text.wordMax) {entityType id : String}
    {found : Record} (hget : (s.recordsOf entityType).get? id = some found) :
    ((s.put r).2.recordsOf entityType).get? id = some found := by
  rw [get?_recordsOf_put, if_neg]
  · exact hget
  · rintro ⟨rfl, rfl⟩
    have hfree := contains_freeId hsize s.lastId
    rw [idFor, hnew, Option.getD_none] at hget
    rw [OrderedMap.contains, hget] at hfree
    cases hfree

/-- In every history each record is filed under its own entity type and identifier. A record
without identifier is stored under a new one that no record of its entity type had before, gone
ones included, unless an identifier has spelled the last number of the numbering; and all records
that were there are there afterwards. -/
theorem stored_under_new_ids (h : History log s) :
    s.Filed ∧ ∀ r : Record, r.id = none → ∃ id s',
      MemoryStore.save r s = (.ok (r.withId id), s') ∧ (s.seed r).1 = id ∧
      ((∀ e ∈ log, Text.word? e.2 ≠ some Text.wordMax) → (r.entityType, id) ∉ log) ∧
      ((s.recordsOf r.entityType).size ≤ Text.wordMax → ∀ entityType other found,
        (s.recordsOf entityType).get? other = some found →
          (s'.recordsOf entityType).get? other = some found ∧
            ((s.seed r).2.recordsOf entityType).get? other = some found) := by
  refine ⟨h.filed, fun r hnew => ⟨s.idFor r, (MemoryStore.save r s).2, ?_, seed_fst s r, ?_, ?_⟩⟩
  · exact Prod.ext (save_fst s r) rfl
  · intro hunspent hstored
    have hnumbered := h.numbered hunspent
    exact hnumbered.ne_next hstored (h.idFor_of_numbered hnumbered hnew)
  · intro hsize entityType other found hget
    have hkept := get?_put_of_new hnew hsize hget
    exact ⟨hkept, hkept⟩

end MemoryStore

namespace Library

/-- A sheet under an identifier. -/
def sheetAt (id : String) : Record := (Record.new "node" "sheet").withId id

/-- A store that has met a numeral with leading zeros and no longer holds its first record. -/
def reshelved : MemoryStore :=
  (MemoryStore.delete (sheetAt "1")
    ((MemoryStore.empty.seed (Record.new "node" "sheet")).2.seed (sheetAt "007")).2).2

theorem history_reshelved :
    MemoryStore.History [("node", "1"), ("node", "007")] reshelved :=
  ((MemoryStore.History.start.seed (Record.new "node" "sheet")).seed (sheetAt "007")).delete
    (sheetAt "1")

/-- The next new sheet is the eighth, though "1" is free again. -/
theorem reshelved_new_id : ∃ s', MemoryStore.save (Record.new "node" "sheet") reshelved =
      (.ok (sheetAt "8"), s') ∧ ("node", "8") ∉ [("node", "1"), ("node", "007")] ∧
    (s'.recordsOf "node").get? "007" = some (sheetAt "007") := by
  obtain ⟨-, hnew⟩ := MemoryStore.stored_under_new_ids history_reshelved
  obtain ⟨id, s', hsave, -, hfresh, hkept⟩ := hnew (Record.new "node" "sheet") rfl
  have hstored : (MemoryStore.save (Record.new "node" "sheet") reshelved).1 =
      .ok (sheetAt "8") := rfl
  rw [hsave] at hstored
  obtain rfl : id = "8" := Option.some.inj (congrArg Record.id (Except.ok.inj hstored))
  exact ⟨s', hsave, hfresh (by decide +kernel),
    (hkept (by decide +kernel) "node" "007" _ (by rfl)).1⟩

/-- A store that has removed the sheet "0" and then met the last number of the numbering. -/
def spent : MemoryStore :=
  ((MemoryStore.delete (sheetAt "0") (MemoryStore.empty.seed (sheetAt "0")).2).2.seed
    (sheetAt "18446744073709551615")).2

/-- The next new sheet gets the identifier of the removed one. -/
theorem spent_not_new :
    MemoryStore.History [("node", "0"), ("node", "18446744073709551615")] spent ∧
    (MemoryStore.save (Record.new "node" "sheet") spent).1 = .ok (sheetAt "0") ∧
    ("node", "0") ∈ [("node", "0"), ("node", "18446744073709551615")] := by
  refine ⟨?_, ?_, by simp⟩
  · exact ((MemoryStore.History.start.seed (sheetAt "0")).delete (sheetAt "0")).seed
      (sheetAt "18446744073709551615")
  · rfl

end Library

end RecordGraph
