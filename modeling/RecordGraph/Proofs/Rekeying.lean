/-
# Filing members under their identifiers

A member that was made without an identifier is filed under a placeholder until a caller asks for
it to be filed under the identifier that saving has given it. The entry is renamed where it
stands, among the members and in the snapshot, which need not have the same entries.

An identifier may be a key of either map already, for a record can be wrapped more than once.
Where it is, two entries meet and one of them is lost. Said here is exactly when the members, the
snapshot, and the models that the next save deletes are what they were.
-/
import RecordGraph.Proofs.Saving.Children
import RecordGraph.Proofs.Upholding.Histories

namespace RecordGraph

variable {σ : Type}

/-! ## Renaming one key -/

@[simp] theorem rekeyed_old (old new : String) : rekeyed old new old = new := if_pos rfl

theorem rekeyed_of_ne {old new key : String} (h : key ≠ old) : rekeyed old new key = key :=
  if_neg h

@[simp] theorem rekeyed_self (key : String) : rekeyed key key = id := by
  funext other
  by_cases h : other = key
  · rw [h, rekeyed_old, id]
  · rw [rekeyed_of_ne h, id]

namespace OrderedMap

variable {α : Type} {m : OrderedMap String α} {old new key : String}

/-- No entry stands where that of the old key is to be renamed to. -/
def Frees (m : OrderedMap String α) (old new : String) : Prop :=
  old ∈ m.keys → new ∈ m.keys → new = old

/-- What becomes of a dictionary in which a key is replaced. -/
structure Renamed (m : OrderedMap String α) (old new : String) (m' : OrderedMap String α) :
    Prop where
  /-- No value is lost or moved exactly where no two entries meet. -/
  values_iff : m'.values = m.values ↔ m.Frees old new
  /-- Only the key is replaced then. -/
  entries : m.Frees old new → m'.entries = m.entries.map fun e => (rekeyed old new e.1, e.2)

theorem nodup_rekeyed_iff : (m.keys.map (rekeyed old new)).Nodup ↔ m.Frees old new := by
  constructor
  · intro h hold hnew
    by_contra hne
    exact hne (List.inj_on_of_nodup_map h hnew hold (by rw [rekeyed_of_ne hne, rekeyed_old]))
  · intro h
    refine List.Nodup.map_on ?_ m.keys_nodup
    intro first hfirst second hsecond heq
    unfold rekeyed at heq
    split at heq <;> split at heq
    · simp [*]
    · subst heq
      subst first
      exact (h hfirst hsecond).symm
    · subst heq
      subst second
      exact h hsecond hfirst
    · exact heq

theorem renamed_renameKeys (m : OrderedMap String α) (old new : String) :
    m.Renamed old new (m.renameKeys (rekeyed old new)) where
  values_iff := values_renameKeys_iff.trans nodup_rekeyed_iff
  entries hfree := entries_renameKeys (nodup_rekeyed_iff.mpr hfree)

/-- The other entries keep what they have and where they stand. -/
theorem filter_renameKeys_rekeyed (p : String → Bool) (hold : p old = false)
    (hnew : p new = false) :
    (m.renameKeys (rekeyed old new)).entries.filter (fun e => p e.1) =
      m.entries.filter fun e => p e.1 := by
  have hkept : ∀ es : List (String × α),
      (es.map fun e => (rekeyed old new e.1, e.2)).filter (fun e => p e.1) =
        es.filter fun e => p e.1 := by
    intro es
    induction es with
    | nil => rfl
    | cons e rest ih =>
        rw [List.map_cons, List.filter_cons, List.filter_cons, ih]
        by_cases he : e.1 = old
        · simp [he, hold, hnew]
        · simp [rekeyed_of_ne he]
  rw [renameKeys, filter_entries_ofList, hkept, entries_ofList]
  exact m.distinct.sublist (List.filter_sublist.map Prod.fst)

theorem mem_keys_renameKeys_rekeyed (hold : old ∈ m.keys) :
    key ∈ (m.renameKeys (rekeyed old new)).keys ↔ key = new ∨ (key ≠ old ∧ key ∈ m.keys) := by
  rw [keys_renameKeys, mem_distinct, List.mem_map]
  constructor
  · rintro ⟨before, hbefore, rfl⟩
    by_cases h : before = old
    · exact .inl (by rw [h, rekeyed_old])
    · rw [rekeyed_of_ne h]
      exact .inr ⟨h, hbefore⟩
  · rintro (rfl | ⟨hne, hkey⟩)
    · exact ⟨old, hold, rekeyed_old old _⟩
    · exact ⟨key, hkey, rekeyed_of_ne hne⟩

theorem ne_old_of_mem_renameKeys (hne : new ≠ old)
    (h : key ∈ (m.renameKeys (rekeyed old new)).keys) : key ≠ old := by
  rw [keys_renameKeys, mem_distinct, List.mem_map] at h
  obtain ⟨before, -, rfl⟩ := h
  by_cases hbefore : before = old
  · rwa [hbefore, rekeyed_old]
  · rwa [rekeyed_of_ne hbefore]

end OrderedMap

/-! ## What a collection holds afterwards -/

namespace CollectionData

@[simp] theorem rekey_self (d : CollectionData) (key : String) : d.rekey key key = d := by
  have hsame : ∀ m : OrderedMap String Model, m.renameKeys (rekeyed key key) = m := by
    intro m
    apply OrderedMap.ext
    rw [OrderedMap.entries_renameKeys (OrderedMap.nodup_rekeyed_iff.mpr fun _ _ => rfl)]
    simp
  rw [rekey, hsame, hsame]

/-- Of the models that were no longer members, the one filed under the new key, if there is
one, counts as a member again. -/
theorem removed_rekey {d : CollectionData} {old new : String} (hold : old ∈ d.members.keys)
    (hne : new ≠ old) : (d.rekey old new).removed =
      ((d.snapshot.entries.filter fun e => !d.members.contains e.1).filter
        fun e => e.1 ≠ new).map Prod.snd := by
  let gone (key : String) : Bool := decide (key ≠ new) && !d.members.contains key
  have hgoneOld : gone old = false := by
    simp [gone, (d.members.contains_iff_mem_keys old).mpr hold]
  have hgoneNew : gone new = false := by simp [gone]
  have hgone : ∀ e ∈ (d.rekey old new).snapshot.entries,
      (!(d.rekey old new).members.contains e.1) = gone e.1 := by
    intro e he
    have hkey : e.1 ≠ old :=
      OrderedMap.ne_old_of_mem_renameKeys hne (List.mem_map_of_mem he)
    rw [Bool.eq_iff_iff]
    simp only [gone, Bool.not_eq_true', Bool.and_eq_true, decide_eq_true_iff, ← Bool.not_eq_true,
      OrderedMap.contains_iff_mem_keys]
    rw [rekey, OrderedMap.mem_keys_renameKeys_rekeyed hold]
    tauto
  rw [removed, List.filter_congr hgone, List.filter_filter]
  exact congrArg _ (OrderedMap.filter_renameKeys_rekeyed gone hgoneOld hgoneNew)

end CollectionData

/-- Leaving entries out changes nothing in what is chosen of their values only if none of them
would be chosen. -/
theorem filter_map_filter_eq_iff {α β : Type} (l : List α) (p : α → Bool) (f : α → β)
    (q : β → Bool) : ((l.filter p).map f).filter q = (l.map f).filter q ↔
      ∀ e ∈ l, q (f e) = true → p e = true := by
  rw [List.filter_map, List.filter_map, List.filter_comm]
  have hall : (l.filter (q ∘ f)).filter p = l.filter (q ∘ f) ↔
      ∀ e ∈ l, q (f e) = true → p e = true := by
    rw [List.filter_eq_self]
    simp only [List.mem_filter, Function.comp_apply, and_imp]
  rw [← hall]
  constructor
  · intro h
    have hlength := congrArg List.length h
    rw [List.length_map, List.length_map] at hlength
    exact List.filter_sublist.eq_of_length hlength
  · exact congrArg _

/-! ## Replacing a key -/

namespace Collection

variable {g g' : Graph σ} {c : Collection} {oldKey : String}

/-- The old key belongs to a member with an identifier, which it is renamed to. -/
theorem returns_replaceOldKey (hc : g.HasCollection c)
    (h : Returns (c.replaceOldKey oldKey) g true g') :
    ∃ m id, (g.collection c).members.get? oldKey = some m ∧ (g.model m).record.id = some id ∧
      g' = g.setCollection c ((g.collection c).rekey oldKey id) := by
  simp only [replaceOldKey, returns_bind, returns_data, and_assoc, exists_eq_left] at h
  split at h
  · simp at h
  · rename_i m hm
    simp only [returns_bind, Model.returns_id, and_assoc, exists_eq_left] at h
    split at h
    · simp at h
    · rename_i id hid
      refine ⟨m, id, hm, hid, ?_⟩
      split at h
      · simp only [returns_bind, returns_update, returns_pure] at h
        obtain ⟨⟨⟩, between, rfl, rfl, -⟩ := h
        rfl
      · rename_i hsame
        obtain ⟨rfl, -⟩ := returns_pure.mp h
        rw [not_not.mp hsame, CollectionData.rekey_self, Graph.setCollection_self hc]

end Collection

/-- Which removed models the next save deletes stays the same unless a stored one is filed under
the identifier in the snapshot, and no member is. -/
theorem Graph.removedStored_rekey_iff {g : Graph σ} {c : Collection} {old new : String}
    (hc : g.HasCollection c) (hold : old ∈ (g.collection c).members.keys) :
    (g.setCollection c ((g.collection c).rekey old new)).removedStored c = g.removedStored c ↔
      (new ∉ (g.collection c).members.keys →
        ∀ x, (g.collection c).snapshot.get? new = some x → (g.model x).record.isNew = true) := by
  by_cases hne : new = old
  · subst hne
    rw [CollectionData.rekey_self, Graph.setCollection_self hc]
    exact ⟨fun _ hnew => absurd hold hnew, fun _ => rfl⟩
  · rw [removedStored, Graph.collection_setCollection, if_pos rfl,
      CollectionData.removed_rekey hold hne]
    refine (filter_map_filter_eq_iff _ _ _ _).trans ?_
    constructor
    · intro h hnew x hx
      by_contra hstored
      have hentry : (new, x) ∈ (g.collection c).snapshot.entries.filter
          fun e => !(g.collection c).members.contains e.1 := by
        rw [List.mem_filter, Bool.not_eq_true', Bool.eq_false_iff, Ne,
          OrderedMap.contains_iff_mem_keys]
        exact ⟨OrderedMap.get?_eq_some_iff.mp hx, hnew⟩
      simpa using h _ hentry (by simpa using hstored)
    · rintro h ⟨key, x⟩ hentry hstored
      rw [List.mem_filter, Bool.not_eq_true', Bool.eq_false_iff, Ne,
        OrderedMap.contains_iff_mem_keys] at hentry
      rw [decide_eq_true_iff]
      rintro rfl
      have hnew := h hentry.2 x (OrderedMap.get?_eq_some_iff.mpr hentry.1)
      rw [Graph.model_setCollection, hnew] at hstored
      cases hstored

/-- A member that is filed under its identifier in place of an old key keeps its place, and so do
all others, in the members and in the snapshot, exactly where no other entry has the identifier
for a key; only the key is replaced then. What the next save deletes stays the same unless a
stored model that was removed has the identifier for a key. -/
theorem replaceOldKey_keeps {g g' : Graph σ} {c : Collection} {oldKey : String}
    (hc : g.HasCollection c) (h : Returns (c.replaceOldKey oldKey) g true g') :
    ∃ m id, (g.collection c).members.get? oldKey = some m ∧ (g.model m).record.id = some id ∧
      g' = g.setCollection c { g.collection c with
        members := (g'.collection c).members, snapshot := (g'.collection c).snapshot } ∧
      (g.collection c).members.Renamed oldKey id (g'.collection c).members ∧
      (g.collection c).snapshot.Renamed oldKey id (g'.collection c).snapshot ∧
      (g'.removedStored c = g.removedStored c ↔ (id ∉ (g.collection c).members.keys →
        ∀ x, (g.collection c).snapshot.get? id = some x → (g.model x).record.isNew = true)) := by
  obtain ⟨m, id, hm, hid, rfl⟩ := Collection.returns_replaceOldKey hc h
  have hold : oldKey ∈ (g.collection c).members.keys :=
    ((g.collection c).members.contains_iff_mem_keys oldKey).mp (by simp [OrderedMap.contains, hm])
  refine ⟨m, id, hm, hid, ?_, ?_, ?_, Graph.removedStored_rekey_iff hc hold⟩
  · rw [Graph.collection_setCollection, if_pos rfl]
    rfl
  · rw [Graph.collection_setCollection, if_pos rfl]
    exact OrderedMap.renamed_renameKeys _ oldKey id
  · rw [Graph.collection_setCollection, if_pos rfl]
    exact OrderedMap.renamed_renameKeys _ oldKey id

namespace Library

/-- A collection of two new authors, of which the first one was stored since. -/
def enrolled : Graph MemoryStore :=
  let g := Graph.new MemoryStore.empty (registry [author, article])
  let g := (Session.start Config.standard g).2
  let g := (Collection.forModelType session "author" g).2
  let g := (Collection.putNew ⟨0⟩ (Collection.putNew ⟨0⟩ g).2).2
  ((Related.model ⟨0⟩).save none g).2

theorem reachable_enrolled : Graph.Reachable MemoryStore.Filed enrolled := by
  have htypes : ∀ t ∈ [author, article], t.WellFormed := by
    simp [wellFormed_author, wellFormed_article]
  refine .call (.call (.call (.call (.call (.new MemoryStore.filed_empty
    (wellFormed_registry htypes)) (.start _)) (.ofType _ _)) (.putNew ?_)) (.putNew ?_))
    (.save (r := .model ⟨0⟩) (?_ : Graph.HasModel _ ⟨0⟩) _)
  all_goals decide +kernel

/-- The graph after the first author was filed under its identifier. -/
def renumbered (g : Graph MemoryStore) : Graph MemoryStore :=
  (Collection.replaceOldKey ⟨0⟩ "PLH1" g).2

/-- Both authors stay where they are. -/
theorem enrolled_keeps :
    Returns (Collection.replaceOldKey ⟨0⟩ "PLH1") enrolled true (renumbered enrolled) ∧
      (enrolled.collection ⟨0⟩).members.entries = [("PLH1", ⟨0⟩), ("PLH2", ⟨1⟩)] ∧
      ((renumbered enrolled).collection ⟨0⟩).members.entries = [("1", ⟨0⟩), ("PLH2", ⟨1⟩)] := by
  have hrun : Returns (Collection.replaceOldKey ⟨0⟩ "PLH1") enrolled true (renumbered enrolled) :=
    returns_of_fst_eq_ok (by decide +kernel)
  have hbefore : (enrolled.collection ⟨0⟩).members.entries = [("PLH1", ⟨0⟩), ("PLH2", ⟨1⟩)] := by
    decide +kernel
  have hstored : (enrolled.collection ⟨0⟩).members.get? "PLH1" = some ⟨0⟩ ∧
      (enrolled.model ⟨0⟩).record.id = some "1" := by decide +kernel
  obtain ⟨m, id, hm, hid, -, hmembers, -⟩ := replaceOldKey_keeps (by decide +kernel) hrun
  obtain rfl : ⟨0⟩ = m := Option.some.inj (hstored.1.symm.trans hm)
  obtain rfl : "1" = id := Option.some.inj (hstored.2.symm.trans hid)
  have hfree : (enrolled.collection ⟨0⟩).members.Frees "PLH1" "1" := fun _ hnew => by
    simp [OrderedMap.keys, hbefore] at hnew
  refine ⟨hrun, hbefore, ?_⟩
  rw [hmembers.entries hfree, hbefore]
  decide +kernel

/-- The graph after the record of the first author was wrapped again. -/
def rewrapped : Graph MemoryStore := (Model.forgeById session "author" "1" enrolled).2

/-- The second wrapper came into the collection, too. -/
def doubled : Graph MemoryStore := (Collection.put ⟨0⟩ ⟨2⟩ rewrapped).2

/-- The second wrapper came into the snapshot only. -/
def recalled : Graph MemoryStore := (Collection.putSnapshot ⟨0⟩ ⟨2⟩ rewrapped).2

theorem reachable_rewrapped : Graph.Reachable MemoryStore.Filed rewrapped :=
  .call reachable_enrolled (.forgeById _ _ _)

/-- The author that was to be filed under its identifier is no longer a member, and the second
wrapper of its record is no longer to be deleted. -/
theorem doubled_not_kept :
    (Graph.Reachable MemoryStore.Filed doubled ∧
      Returns (Collection.replaceOldKey ⟨0⟩ "PLH1") doubled true (renumbered doubled) ∧
      (doubled.collection ⟨0⟩).members.entries = [("PLH1", ⟨0⟩), ("PLH2", ⟨1⟩), ("1", ⟨2⟩)] ∧
      ((renumbered doubled).collection ⟨0⟩).members.entries = [("1", ⟨2⟩), ("PLH2", ⟨1⟩)]) ∧
    (Graph.Reachable MemoryStore.Filed recalled ∧
      Returns (Collection.replaceOldKey ⟨0⟩ "PLH1") recalled true (renumbered recalled) ∧
      recalled.removedStored ⟨0⟩ = [⟨2⟩] ∧ (renumbered recalled).removedStored ⟨0⟩ = []) := by
  refine ⟨⟨.call reachable_rewrapped (.put ?_ ?_), returns_of_fst_eq_ok ?_, ?_⟩,
    .call reachable_rewrapped (.putSnapshot ?_ ?_), returns_of_fst_eq_ok ?_, ?_⟩
  all_goals decide +kernel

end Library

end RecordGraph
