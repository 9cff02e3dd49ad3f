/-
# What saving a collection removes

Saving a collection stores the record of every member and then deletes the stored models that
were removed since the snapshot, one after the other. Removed models are told from members by
their keys, deletions act on identifiers and cascade. So the record of a member stays unless a
removed model shows it under another key or reaches it by cascades; and the record of a removed
model is deleted once unless another removed model shows it, too, or one whose turn came before
has reached it.
-/
import RecordGraph.Proofs.Deleting.Descendants
import RecordGraph.Proofs.Saving.Children

namespace RecordGraph

/-! ## Removed models -/

namespace Graph

variable {g g' : Graph MemoryStore} {c : Collection} {m n : Model}

/-- What is removed and stored is shown by nodes, one for each model. -/
theorem nodes_removedStored (g : Graph MemoryStore) (c : Collection) :
    g.nodes (g.removedStored c) = (g.removedStored c).map g.node := by
  rw [nodes, removedStored, List.filter_filter]
  simp

/-- With its members as its snapshot, a collection has nothing to delete. -/
theorem removedStored_eq_nil (h : (g.collection c).snapshot = (g.collection c).members) :
    g.removedStored c = [] := by
  have hnone : (g.collection c).removed = [] := by
    rw [CollectionData.removed, h, List.map_eq_nil_iff, List.filter_eq_nil_iff]
    intro e he
    have hmember : (g.collection c).members.contains e.1 = true :=
      (OrderedMap.contains_iff_mem_keys _ _).mpr (List.mem_map_of_mem he)
    simp [hmember]
  rw [removedStored, hnone, List.filter_nil]

/-- The stored models of the collection are filed under their identifiers, in the snapshot, too. -/
def FiledById (g : Graph MemoryStore) (c : Collection) : Prop :=
  ∀ e ∈ (g.collection c).members.entries ++ (g.collection c).snapshot.entries,
    (g.model e.2).record.isNew = true ∨ (g.model e.2).record.id = some e.1

instance (g : Graph MemoryStore) (c : Collection) : Decidable (g.FiledById c) :=
  inferInstanceAs (Decidable (∀ e ∈ _, _ ∨ _))

/-- Then no removed model shows the record of a member. -/
theorem FiledById.not_sameRecord (h : g.FiledById c) (hm : m ∈ (g.collection c).members.values)
    (hn : n ∈ g.removedStored c) : ¬ g.SameRecord n m := by
  rintro ⟨hstored, hsame, -⟩
  obtain ⟨e, he, rfl⟩ := List.mem_map.mp hm
  obtain ⟨f, hf, rfl⟩ := List.mem_map.mp (List.mem_filter.mp hn).1
  obtain ⟨hf, hremoved⟩ := List.mem_filter.mp hf
  have hid : ∀ x ∈ (g.collection c).members.entries ++ (g.collection c).snapshot.entries,
      (g.model x.2).record.id.isSome → (g.model x.2).record.id = some x.1 := by
    intro x hx hsome
    refine (h x hx).resolve_left fun hnew => ?_
    rw [Record.isNew, Option.isNone_iff_eq_none] at hnew
    simp [hnew] at hsome
  have hkey : some f.1 = some e.1 := by
    rw [← hid f (List.mem_append_right _ hf) hstored,
      ← hid e (List.mem_append_left _ he) (hsame ▸ hstored), hsame]
  have hmember : (g.collection c).members.contains f.1 = true :=
    (OrderedMap.contains_iff_mem_keys _ _).mpr
      (Option.some.inj hkey ▸ List.mem_map_of_mem he)
  simp [hmember] at hremoved

/-- Saving the members of a collection has led from `g` to `g'`. In `saved` all members were
stored; from there on the removed models were deleted, which the log notes. -/
structure SavesMembers (g : Graph MemoryStore) (c : Collection) (saved : Graph MemoryStore)
    (log : List RecordKey) (g' : Graph MemoryStore) : Prop where
  stores : g.OnlyStores saved
  written : ∀ m ∈ (g.collection c).members.values, ∃ entityType id record,
    saved.IsStoredAs m entityType id ∧ saved.stored entityType id = some record
  takes : saved.store.Takes log g'.store
  noted : Node.NotedAll saved.registry saved.store ((saved.removedStored c).map saved.node) log
  record : ∀ m, g.HasModel m → (g'.model m).record = (saved.model m).record
  collection : g'.collection c =
    { g.collection c with snapshot := (g.collection c).members }

end Graph

/-! ## Saving -/

namespace Collection

variable {g g' : Graph MemoryStore} {c : Collection}

/-- Every member is stored: what is filed under its identifier in the end is its own record, or
that of a member that wraps the same one and was saved later. -/
theorem returns_saveModels_written {u : Unit} (hg : g.WellFormed) (hc : g.HasCollection c)
    (h : Returns c.saveModels g u g') : g.OnlyStores g' ∧
      ∀ m ∈ (g.collection c).members.values, ∃ entityType id record,
        g'.IsStoredAs m entityType id ∧ g'.stored entityType id = some record := by
  simp only [saveModels, returns_bind, returns_models, and_assoc, exists_eq_left] at h
  obtain ⟨hstores, hids, hwritten⟩ := h.saves (R := Graph.OnlyStores) (W := fun _ _ => True)
    .refl (fun first second => first.trans second) (fun h => h.keepsIds)
    fun n hn t t' ht hrun => by
      obtain ⟨hstores, hwrites, -⟩ := Model.returns_saveRecord (ht.wellFormed hg)
        ((ht.hasModel n).mpr (hg.member hc hn)) hrun
      exact ⟨hstores, hwrites, trivial⟩
  refine ⟨hstores, fun m hm => ?_⟩
  obtain ⟨id, hid⟩ := Option.isSome_iff_exists.mp (hids m hm)
  refine ⟨(g'.model m).record.entityType, id, ?_⟩
  cases hwritten (g'.model m).record.entityType id with
  | before _ hnone => exact absurd ⟨rfl, hid⟩ (hnone m hm)
  | written n hn hat record hrecord _ => exact ⟨record, ⟨rfl, hid⟩, hrecord⟩

/-- Saving a collection, step by step. -/
theorem returns_save {u : Unit} (hg : g.WellFormed) (hfiled : g.store.Filed)
    (hc : g.HasCollection c) (h : Returns ((Related.collection c).save none) g u g') :
    ∃ saved log, Returns c.saveModels g () saved ∧ g.SavesMembers c saved log g' := by
  change Returns c.saveMembers g u g' at h
  simp only [saveMembers, returns_bind] at h
  obtain ⟨⟨⟩, _, hsave, gone, saved, hgone, ⟨⟩, last, hlast, hmark⟩ := h
  obtain ⟨rfl, rfl⟩ := returns_modelsToDelete hgone
  obtain ⟨hstores, hwritten⟩ := returns_saveModels_written hg hc hsave
  obtain ⟨hsound, -, -⟩ := (upholds_saveModels MemoryStore.keeps_filed ⟨hg, hfiled⟩
    hc).of_returns hsave
  have hc' : saved.HasCollection c := (hstores.hasCollection c).mpr hc
  have hremoved : ∀ n ∈ saved.removedStored c, saved.HasModel n := fun n hn =>
    hsound.wellFormed.removedMember hc' (List.mem_filter.mp hn).1
  obtain ⟨log, hdeletes, hnoted⟩ := Model.returns_deleteAll Model.erasesAll_delete
    hsound.wellFormed hsound.store hremoved hlast
  -- no deletion writes to the collection itself
  have hframed : Framed saved _ ((saved.removedStored c).forM Model.delete) saved fun _ _ => True :=
    Framed.forM MemoryStore.covers_takes fun n _ t hframes =>
      Model.framed_delete MemoryStore.covers_takes MemoryStore.Takes.exists_delete
        hframes.collections_size n
  have hcollection : last.collection c = g.collection c := by
    rw [(hframed.of_returns hlast).1.collection c hc', hstores.collection c]
  obtain rfl := returns_markSaved hmark
  refine ⟨saved, log, hsave, hstores, hwritten, hdeletes.takes, ?_, fun m hm => ?_, ?_⟩
  · rwa [Graph.nodes_removedStored] at hnoted
  · exact hdeletes.record m ((hstores.hasModel m).mpr hm)
  · rw [Graph.collection_setCollection, if_pos rfl, hcollection]

end Collection

/-- After a save every member has an identifier, under which its record was stored before the
first deletion. It is stored there in the end, too, unless a removed model shows the same record,
under another key, or reaches it by cascades. -/
theorem save_keeps_members {g g' : Graph MemoryStore} {c : Collection}
    (hg : Graph.Reachable MemoryStore.Filed g) (hc : g.HasCollection c)
    (h : Returns ((Related.collection c).save none) g () g') :
    (g'.collection c).members = (g.collection c).members ∧
    ∃ saved, Returns c.saveModels g () saved ∧
      ∀ m ∈ (g'.collection c).members.values, ∃ entityType id record,
        g'.IsStoredAs m entityType id ∧ saved.stored entityType id = some record ∧
        ((∀ n ∈ saved.removedStored c, ¬ saved.SameRecord n m ∧
            ¬ Node.Reaches saved.registry saved.store (saved.node n) (entityType, id)) →
          g'.stored entityType id = some record) := by
  obtain ⟨hwf, hfiled⟩ := hg.sound MemoryStore.keeps_filed
  obtain ⟨saved, log, hsave, hsaves⟩ := Collection.returns_save hwf hfiled hc h
  have hmembers : (g'.collection c).members = (g.collection c).members := by
    rw [hsaves.collection]
  refine ⟨hmembers, saved, hsave, fun m hm => ?_⟩
  rw [hmembers] at hm
  obtain ⟨entityType, id, record, hat, hrecord⟩ := hsaves.written m hm
  refine ⟨entityType, id, record, ?_, hrecord, fun happart => ?_⟩
  · rw [Graph.IsStoredAs, hsaves.record m (hwf.member hc hm)]
    exact hat
  · refine hsaves.takes.get?_eq_some.mpr ⟨hrecord, fun hnoted => ?_⟩
    obtain ⟨x, hx, hreached⟩ := hsaves.noted.reached _ hnoted
    obtain ⟨n, hn, rfl⟩ := List.mem_map.mp hx
    obtain ⟨hsame, hreaches⟩ := happart n hn
    rcases hreached with hkey | hreached
    · obtain ⟨hnode, hentity, hid⟩ := Graph.shows_node (g := saved) (m := n)
        (by simpa using (List.mem_filter.mp hn).2)
      obtain ⟨rfl, rfl⟩ := Prod.mk.injEq .. ▸ hkey
      exact hsame (Graph.sameRecord_of_isStoredAs ⟨hentity, hid⟩ hat)
    · exact hreaches hreached

/-- After a save there is nothing left to delete. The records of all removed models that were
stored were deleted, and besides only what they reach by cascades. The record of a removed model
was deleted once if no other removed model shows it and none reaches it whose turn came before
that of this one, or this one itself. -/
theorem save_deletes_removed {g g' : Graph MemoryStore} {c : Collection}
    (hg : Graph.Reachable MemoryStore.Filed g) (hc : g.HasCollection c)
    (h : Returns ((Related.collection c).save none) g () g') :
    Returns c.modelsToDelete g' [] g' ∧ ∃ saved log, Returns c.saveModels g () saved ∧
      g.removedStored c ⊆ saved.removedStored c ∧
      g'.store.deleted = g.store.deleted ++ log ∧
      (∀ entityType id, g'.stored entityType id =
        if (entityType, id) ∈ log then none else saved.stored entityType id) ∧
      (∀ m ∈ saved.removedStored c, (saved.node m).key ∈ log) ∧
      (∀ k ∈ log, ∃ m ∈ saved.removedStored c, k = (saved.node m).key ∨
        Node.Reaches saved.registry saved.store (saved.node m) k) ∧
      (g.registry.CascadesStepwise → ∀ before m after,
        saved.removedStored c = before ++ m :: after →
        (∀ n ∈ before ++ after, (saved.node n).key ≠ (saved.node m).key) →
        (∀ n ∈ before ++ [m],
          ¬ Node.Reaches saved.registry saved.store (saved.node n) (saved.node m).key) →
        log.count (saved.node m).key = 1) := by
  obtain ⟨hwf, hfiled⟩ := hg.sound MemoryStore.keeps_filed
  obtain ⟨saved, log, hsave, hsaves⟩ := Collection.returns_save hwf hfiled hc h
  have hnothing : g'.removedStored c = [] :=
    Graph.removedStored_eq_nil (by rw [hsaves.collection])
  refine ⟨?_, saved, log, hsave, hsaves.stores.grows.removedStored_subset hwf hc
    (hsaves.stores.collection c), ?_, fun entityType id => hsaves.takes.get? entityType id,
    fun m hm => ?_, fun k hk => ?_,
    fun hsteps before m after hremoved hothers hreaches => ?_⟩
  · rw [← hnothing]
    exact g'.returns_removedStored c
  · rw [hsaves.takes.deleted, hsaves.stores.deleted]
  · exact hsaves.noted.complete _ (List.mem_map_of_mem hm)
  · obtain ⟨x, hx, hreached⟩ := hsaves.noted.reached k hk
    obtain ⟨m, hm, rfl⟩ := List.mem_map.mp hx
    exact ⟨m, hm, hreached⟩
  · rw [← hsaves.stores.registry] at hsteps
    refine hsaves.noted.once hsteps (before.map saved.node) (saved.node m) (after.map saved.node)
      (by simp [hremoved]) ?_ ?_
    · intro x hx
      rw [← List.map_append] at hx
      obtain ⟨n, hn, rfl⟩ := List.mem_map.mp hx
      exact hothers n hn
    · intro x hx
      rw [← List.map_singleton, ← List.map_append] at hx
      obtain ⟨n, hn, rfl⟩ := List.mem_map.mp hx
      exact hreaches n hn

namespace Library

/-- The graph of a store in which several records are wrapped in a collection. -/
def gathered (types : List ModelType) (rs : List Record) (typeName : String)
    (ids : List String) : Graph MemoryStore :=
  (Collection.forgeByIds session typeName ids
    (Session.start Config.standard (Graph.new (filled rs) (registry types))).2).2

theorem reachable_gathered {types : List ModelType} (htypes : ∀ t ∈ types, t.WellFormed)
    (rs : List Record) (typeName : String) (ids : List String) :
    Graph.Reachable MemoryStore.Filed (gathered types rs typeName ids) :=
  .call (.call (.new (filed_filled _) (wellFormed_registry htypes)) (.start _)) (.forgeByIds _ _ _)

/-- The graph after the members with these keys were removed from the only collection. -/
def without (keys : List String) (g : Graph MemoryStore) : Graph MemoryStore :=
  keys.foldl (fun g key => (Collection.remove ⟨0⟩ key g).2) g

theorem reachable_without {g : Graph MemoryStore} (hg : Graph.Reachable MemoryStore.Filed g)
    (hc : g.HasCollection ⟨0⟩) (keys : List String) :
    Graph.Reachable MemoryStore.Filed (without keys g) := by
  induction keys generalizing g with
  | nil => exact hg
  | cons key rest ih =>
      have hremove := Collection.upholds_remove (hg.sound MemoryStore.keeps_filed) hc key
      exact ih (.call hg (.remove hc key)) (hremove.grows.collection _ hc)

/-- The graph after the only collection was saved. -/
def settled (g : Graph MemoryStore) : Graph MemoryStore :=
  ((Related.collection ⟨0⟩).save none g).2

/-- Saving a collection can be evaluated. -/
theorem save_brief (r : Related) (path : Option (List String)) :
    r.save path = @Related.save MemoryStore MemoryStore.brief r path := by
  rw [MemoryStore.brief_eq]

/-- Two sheets of a binder. -/
def sheets : Graph MemoryStore :=
  gathered [binder, sheet] [bound "sheet" "first" ["minutes"] .single,
    bound "sheet" "second" ["minutes"] .single] "sheet" ["first", "second"]

/-- The sheets, of which the first one is no longer a member. -/
def loose : Graph MemoryStore := without ["first"] sheets

/-- The graph after the second sheet was stored. -/
def restored : Graph MemoryStore := (Collection.saveModels ⟨0⟩ loose).2

/-- What the sheets are like, the first one removed and the second one stored. -/
theorem evaluated_loose :
    (sheets.HasCollection ⟨0⟩ ∧ loose.HasCollection ⟨0⟩ ∧ loose.registry.CascadesStepwise ∧
      ⟨1⟩ ∈ (loose.collection ⟨0⟩).members.values ∧
      (Collection.saveModels ⟨0⟩ loose).1 = .ok () ∧
      ((Related.collection ⟨0⟩).save none loose).1 = .ok ()) ∧
    restored.FiledById ⟨0⟩ ∧ ⟨1⟩ ∈ (restored.collection ⟨0⟩).members.values ∧
      restored.removedStored ⟨0⟩ = [⟨0⟩] ∧ (restored.node ⟨0⟩).key = ("node", "first") ∧
      (restored.node ⟨0⟩).type.cascades = [] := by
  decide +kernel

theorem reachable_loose : Graph.Reachable MemoryStore.Filed loose := by
  obtain ⟨⟨hsheets, -⟩, -⟩ := evaluated_loose
  exact reachable_without (reachable_gathered wellFormed_binding _ _ _) hsheets _

theorem returns_settled_loose :
    Returns ((Related.collection ⟨0⟩).save none) loose () (settled loose) := by
  obtain ⟨⟨-, -, -, -, -, hsave⟩, -⟩ := evaluated_loose
  exact returns_of_fst_eq_ok hsave

/-- Once the second sheet is stored, the first one is to be deleted, with which nothing goes. -/
theorem upserted_loose {saved : Graph MemoryStore}
    (h : Returns (Collection.saveModels ⟨0⟩) loose () saved) :
    saved.FiledById ⟨0⟩ ∧ ⟨1⟩ ∈ (saved.collection ⟨0⟩).members.values ∧
      saved.removedStored ⟨0⟩ = [⟨0⟩] ∧ (saved.node ⟨0⟩).key = ("node", "first") ∧
      (saved.node ⟨0⟩).type.cascades = [] := by
  obtain ⟨⟨-, -, -, -, hrun, -⟩, hrestored⟩ := evaluated_loose
  rw [(h.unique (returns_of_fst_eq_ok hrun)).2]
  exact hrestored

/-- The second sheet, which is a member, is stored in the end. -/
theorem loose_keeps_second :
    Returns ((Related.collection ⟨0⟩).save none) loose () (settled loose) ∧
      ∃ entityType id record, (settled loose).IsStoredAs ⟨1⟩ entityType id ∧
        (settled loose).stored entityType id = some record := by
  obtain ⟨⟨-, hc, -, hsecond, -⟩, -⟩ := evaluated_loose
  obtain ⟨hmembers, saved, hsave, hkept⟩ :=
    save_keeps_members reachable_loose hc returns_settled_loose
  obtain ⟨hfiled, hmember, hremoved, -, hleaf⟩ := upserted_loose hsave
  obtain ⟨entityType, id, record, hat, -, hstays⟩ := hkept ⟨1⟩ (by rw [hmembers]; exact hsecond)
  refine ⟨returns_settled_loose, entityType, id, record, hat, hstays fun n hn => ?_⟩
  refine ⟨hfiled.not_sameRecord hmember hn, fun hreaches => ?_⟩
  rw [hremoved, List.mem_singleton] at hn
  subst hn
  exact hreaches.cascades_ne_nil hleaf

/-- The first sheet, which was removed, is deleted once. -/
theorem loose_deletes_first :
    Returns ((Related.collection ⟨0⟩).save none) loose () (settled loose) ∧
      Returns (Collection.modelsToDelete ⟨0⟩) (settled loose) [] (settled loose) ∧
      ∃ log, (settled loose).store.deleted = loose.store.deleted ++ log ∧
        log.count ("node", "first") = 1 := by
  obtain ⟨⟨-, hc, hsteps, -⟩, -⟩ := evaluated_loose
  obtain ⟨hnothing, saved, log, hsave, -, hdeleted, -, -, -, honce⟩ :=
    save_deletes_removed reachable_loose hc returns_settled_loose
  obtain ⟨-, -, hremoved, hkey, hleaf⟩ := upserted_loose hsave
  refine ⟨returns_settled_loose, hnothing, log, hdeleted, ?_⟩
  have hcount := honce hsteps [] ⟨0⟩ [] hremoved (by simp) fun n hn hreaches => by
    rw [List.nil_append, List.mem_singleton] at hn
    subst hn
    exact hreaches.cascades_ne_nil hleaf
  rwa [hkey] at hcount

/-- A sheet that was made in a collection, saved, filed under its identifier, removed, and put
back under the key that it was made with. -/
def readmitted : Graph MemoryStore :=
  let g := Graph.new MemoryStore.empty (registry [binder, sheet])
  let g := (Session.start Config.standard g).2
  let g := settled (Collection.putNew ⟨0⟩ (Collection.forModelType session "sheet" g).2).2
  let g := (Collection.replaceOldKey ⟨0⟩ "PLH1" g).2
  (Collection.put ⟨0⟩ ⟨0⟩ (Collection.remove ⟨0⟩ "1" g).2).2

theorem reachable_readmitted : Graph.Reachable MemoryStore.Filed readmitted := by
  refine .call (.call (.call (.call (.call (.call (.call (.new MemoryStore.filed_empty
    (wellFormed_registry wellFormed_binding)) (.start _)) (.ofType _ _)) (.putNew ?_))
    (.save (r := .collection ⟨0⟩) (?_ : Graph.HasCollection _ ⟨0⟩) _)) (.rekey ?_ _))
    (.remove ?_ _)) (.put ?_ ?_)
  all_goals decide +kernel

/-- A chapter and a note that is part of it. Those with the keys are no longer members. -/
def chapters (removed : List String) : Graph MemoryStore :=
  without removed (gathered [page] [bound "page" "chapter" [] .multiple,
    bound "page" "note" ["chapter"] .multiple] "page" ["chapter", "note"])

theorem reachable_chapters (removed : List String) :
    Graph.Reachable MemoryStore.Filed (chapters removed) := by
  refine reachable_without (reachable_gathered (by simpa using wellFormed_page) _ _ _) ?_ removed
  decide +kernel

/-- The sheet that was put back under its old key is deleted as the one that was removed, and a
note that is a member is deleted with its chapter, which is not. -/
theorem readmitted_not_kept :
    (Graph.Reachable MemoryStore.Filed readmitted ∧
      Returns ((Related.collection ⟨0⟩).save none) readmitted () (settled readmitted) ∧
      ⟨0⟩ ∈ ((settled readmitted).collection ⟨0⟩).members.values ∧
      (settled readmitted).IsStoredAs ⟨0⟩ "node" "1" ∧
      (settled readmitted).stored "node" "1" = none) ∧
    (Graph.Reachable MemoryStore.Filed (chapters ["chapter"]) ∧
      Returns ((Related.collection ⟨0⟩).save none) (chapters ["chapter"]) ()
        (settled (chapters ["chapter"])) ∧
      ⟨1⟩ ∈ ((settled (chapters ["chapter"])).collection ⟨0⟩).members.values ∧
      (settled (chapters ["chapter"])).IsStoredAs ⟨1⟩ "node" "note" ∧
      (settled (chapters ["chapter"])).stored "node" "note" = none) := by
  refine ⟨⟨reachable_readmitted, returns_of_fst_eq_ok ?_, ?_⟩,
    reachable_chapters _, returns_of_fst_eq_ok ?_, ?_⟩
  · decide +kernel
  · decide +kernel
  · rw [save_brief]
    decide +kernel
  · simp only [settled, save_brief]
    decide +kernel

/-- A note that was removed together with its chapter is deleted with the chapter, and then
again. -/
theorem chapters_not_deleted_once :
    Graph.Reachable MemoryStore.Filed (chapters ["chapter", "note"]) ∧
      ((chapters ["chapter", "note"]).removedStored ⟨0⟩).map
        (fun m => ((chapters ["chapter", "note"]).node m).key) =
          [("node", "chapter"), ("node", "note")] ∧
      Returns ((Related.collection ⟨0⟩).save none) (chapters ["chapter", "note"]) ()
        (settled (chapters ["chapter", "note"])) ∧
      (settled (chapters ["chapter", "note"])).store.deleted =
        [("node", "note"), ("node", "chapter"), ("node", "note")] := by
  refine ⟨reachable_chapters _, ?_, returns_of_fst_eq_ok ?_, ?_⟩
  · decide +kernel
  · rw [save_brief]
    decide +kernel
  · rw [settled, save_brief]
    decide +kernel

end Library

end RecordGraph
