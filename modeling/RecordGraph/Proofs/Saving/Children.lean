/-
# Saving the far models that hold the foreign key

A relationship without the foreign key is saved from its owner in three steps: the members of
the collection are given the identifier of the owner, they are stored, and the models that were
removed since the snapshot are deleted or taken out of the relationship and stored as well.
Here each step is described by itself, for the store in memory.
-/
import RecordGraph.Proofs.Saving.Records
import RecordGraph.Proofs.Upholding.Storing

namespace RecordGraph

/-! ## What is removed and what is referred to -/

namespace CollectionData

/-- The models of the snapshot whose key is no longer that of a member. -/
def removed (d : CollectionData) : List Model :=
  (d.snapshot.entries.filter fun e => !d.members.contains e.1).map Prod.snd

theorem mem_snapshot_of_mem_removed {d : CollectionData} {m : Model} (h : m ∈ d.removed) :
    m ∈ d.snapshot.values := by
  obtain ⟨e, he, rfl⟩ := List.mem_map.mp h
  exact List.mem_map_of_mem (List.mem_filter.mp he).1

end CollectionData

/-- A removed model was made in the same graph. -/
theorem Graph.WellFormed.removedMember {σ : Type} {g : Graph σ} (hg : g.WellFormed)
    {c : Collection} (hc : g.HasCollection c) {m : Model} (hm : m ∈ (g.collection c).removed) :
    g.HasModel m :=
  hg.snapshotMember hc (CollectionData.mem_snapshot_of_mem_removed hm)

/-- The key refers to the identifier; a single key refers to no other one anyway. -/
def Cardinality.RefersTo (c : Cardinality) (id : String) (ids : List String) : Prop :=
  match c with
  | .single => ids = [id]
  | .multiple => id ∈ ids

instance (c : Cardinality) (id : String) (ids : List String) : Decidable (c.RefersTo id ids) :=
  match c with
  | .single => inferInstanceAs (Decidable (ids = [id]))
  | .multiple => inferInstanceAs (Decidable (id ∈ ids))

theorem Cardinality.RefersTo.mem {c : Cardinality} {id : String} {ids : List String}
    (h : c.RefersTo id ids) : id ∈ ids := by
  cases c with
  | single => exact h ▸ List.mem_singleton_self id
  | multiple => exact h

/-! ## Giving the members the identifier -/

namespace Model

variable {g g' : Graph MemoryStore} {k : ForeignKey} {c : Cardinality} {id : String}

/-- An identifier that is added to a foreign key is in it, unless it is blank. -/
theorem returns_addReferenceId {σ : Type} {g g' : Graph σ} {m : Model} {u : Unit}
    (hplain : k.Plain) (h : Returns (m.addReferenceId k id c) g u g') :
    ∃ record, g' = g.setRecord m record ∧ record.id = (g.model m).record.id ∧
      record.entityType = (g.model m).record.entityType ∧
      (id ≠ "" → c.RefersTo id (record.referenceIds k.field k.column)) := by
  obtain rfl := returns_updateRecord.mp h
  refine ⟨_, rfl, by simp, by simp, fun hid => ?_⟩
  rw [Record.referenceIds_setReferenceIds hplain, if_pos rfl]
  cases c with
  | single => simp [Cardinality.RefersTo, Cardinality.keeps, hid]
  | multiple =>
      simp only [Cardinality.RefersTo, Cardinality.keeps, List.mem_filter]
      refine ⟨?_, by simpa using hid⟩
      split
      · rename_i hheld
        simpa using hheld
      · simp

/-- All models of a list are given the identifier, before any of them is stored. -/
theorem returns_stamp {ms : List Model} {u : PUnit} (hplain : k.Plain)
    (hmade : ∀ m ∈ ms, g.HasModel m)
    (h : Returns (ms.forM fun child => child.addReferenceId k id c) g u g') :
    g.OnlyStores g' ∧ g'.store = g.store ∧
      (∀ n, n ∉ ms → (g'.model n).record = (g.model n).record) ∧
      (id ≠ "" → ∀ n ∈ ms, c.RefersTo id (g'.keyIds k n)) := by
  refine h.forM_invariant (fun done t => g.OnlyStores t ∧ t.store = g.store ∧
    (∀ n, n ∉ done → (t.model n).record = (g.model n).record) ∧
    (id ≠ "" → ∀ n ∈ done, c.RefersTo id (t.keyIds k n))) ⟨.refl g, rfl, by simp, by simp⟩ ?_
  rintro done m rest t t' rfl ⟨hstores, hstore, hothers, hdone⟩ hturn
  obtain ⟨record, rfl, hsame, hentity, hrefers⟩ := returns_addReferenceId hplain hturn
  have hm := (hstores.hasModel m).mpr (hmade m (by simp))
  refine ⟨hstores.trans (.setRecord hm (by simp [hsame]) hentity), hstore, fun n hn => ?_,
    fun hid n hn => ?_⟩
  · rw [List.mem_append, not_or, List.mem_singleton] at hn
    rw [Graph.model_setRecord, if_neg (Ne.symm hn.2)]
    exact hothers n hn.1
  · rw [Graph.keyIds, Graph.model_setRecord]
    by_cases hmn : m = n
    · simpa [hmn] using hrefers hid
    · simp only [hmn, if_false]
      rcases List.mem_append.mp hn with hn | hn
      · exact hdone hid n hn
      · exact absurd (List.mem_singleton.mp hn).symm hmn

end Model

/-! ## Taking the owner off the way back -/

/-- The values under other keys than that of a member are the values without this member. -/
theorem CollectionData.values_erase_keyOf {d : CollectionData} {m : Model} {key : String}
    (h : d.keyOf? m = some key) : (d.members.erase key).values = d.members.values.erase m := by
  have hentries : ∀ es : List (String × Model), (es.map Prod.fst).Nodup →
      (es.find? fun e => e.2 = m).map Prod.fst = some key →
      (es.filter fun e => e.1 ≠ key).map Prod.snd = (es.map Prod.snd).erase m := by
    intro es hdistinct hfound
    induction es with
    | nil => simp at hfound
    | cons e rest ih =>
        rw [List.map_cons, List.nodup_cons] at hdistinct
        by_cases he : e.2 = m
        · obtain rfl : e.1 = key := by simpa [he] using hfound
          have hrest : rest.filter (fun x => x.1 ≠ e.1) = rest := by
            refine List.filter_eq_self.mpr fun x hx => ?_
            have hne : x.1 ≠ e.1 := by
              intro hsame
              exact hdistinct.1 (hsame ▸ List.mem_map_of_mem hx)
            simpa using hne
          rw [List.filter_cons_of_neg (by simp), hrest, List.map_cons, he, List.erase_cons_head]
        · have hfound : (rest.find? fun e => e.2 = m).map Prod.fst = some key := by
            simpa [he] using hfound
          have hne : e.1 ≠ key := by
            rintro rfl
            obtain ⟨x, hx, hkey⟩ := Option.map_eq_some_iff.mp hfound
            exact hdistinct.1 (hkey ▸ List.mem_map_of_mem (List.mem_of_find?_eq_some hx))
          have ih := ih hdistinct.2 hfound
          simp only [ne_eq, decide_not] at ih ⊢
          simp [he, hne, ih]
  exact hentries d.members.entries d.members.distinct h

namespace Graph

theorem model_setModel_parents {σ : Type} (g : Graph σ) (m : Model)
    (parents : OrderedMap String Model) (n : Model) :
    (g.setModel m { g.model m with parents := parents }).model n =
      { g.model n with parents := if m = n then parents else (g.model n).parents } := by
  rw [model_setModel]
  split
  · rename_i hsame
    rw [hsame]
  · rfl

/-- Models may have been stored, and may no longer have the owner loaded, as a parent or as a
member of a collection. Everything else is loaded as before. -/
structure Unlinks (owner : Model) (g g' : Graph MemoryStore) : Prop where
  keepsIds : g.KeepsIds g'
  registry : g'.registry = g.registry
  modelType : ∀ m, (g'.model m).modelType = (g.model m).modelType
  children : ∀ m, (g'.model m).children = (g.model m).children
  parents : ∀ m name p, (g'.model m).parents.get? name = some p →
    (g.model m).parents.get? name = some p
  keptParents : ∀ m name p, (g.model m).parents.get? name = some p → p ≠ owner →
    (g'.model m).parents.get? name = some p
  members : ∀ c, (g'.collection c).members.entries.Sublist (g.collection c).members.entries
  keptMembers : ∀ c, ∀ e ∈ (g.collection c).members.entries, e.2 ≠ owner →
    e ∈ (g'.collection c).members.entries
  snapshot : ∀ c, (g'.collection c).snapshot = (g.collection c).snapshot
  deleted : g'.store.deleted = g.store.deleted
  deletes : g'.store.calls.deletes = g.store.calls.deletes

variable {owner : Model} {g g' g'' : Graph MemoryStore}

theorem OnlyStores.unlinks (h : g.OnlyStores g') (owner : Model) : g.Unlinks owner g' where
  keepsIds := h.keepsIds
  registry := h.registry
  modelType := h.modelType
  children := h.children
  parents m name p hp := by rwa [h.parents m] at hp
  keptParents m name p hp _ := by rwa [h.parents m]
  members c := by rw [h.collection c]
  keptMembers c e he _ := by rwa [h.collection c]
  snapshot c := by rw [h.collection c]
  deleted := h.deleted
  deletes := h.deletes

namespace Unlinks

theorem refl (owner : Model) (g : Graph MemoryStore) : g.Unlinks owner g :=
  (OnlyStores.refl g).unlinks owner

theorem trans (first : g.Unlinks owner g') (second : g'.Unlinks owner g'') :
    g.Unlinks owner g'' where
  keepsIds := first.keepsIds.trans second.keepsIds
  registry := second.registry.trans first.registry
  modelType m := (second.modelType m).trans (first.modelType m)
  children m := (second.children m).trans (first.children m)
  parents m name p hp := first.parents m name p (second.parents m name p hp)
  keptParents m name p hp hne :=
    second.keptParents m name p (first.keptParents m name p hp hne) hne
  members c := (second.members c).trans (first.members c)
  keptMembers c e he hne := second.keptMembers c e (first.keptMembers c e he hne) hne
  snapshot c := (second.snapshot c).trans (first.snapshot c)
  deleted := second.deleted.trans first.deleted
  deletes := second.deletes.trans first.deletes

/-- The members of a collection, fewer by the owner at most. -/
theorem values (h : g.Unlinks owner g') (c : Collection) :
    (g'.collection c).members.values.Sublist (g.collection c).members.values :=
  (h.members c).map Prod.snd

/-- Where the owner is loaded as a parent, it may go. -/
theorem removeParent {m : Model} {name : String}
    (h : (g.model m).parents.get? name = some owner) :
    g.Unlinks owner
      (g.setModel m { g.model m with parents := (g.model m).parents.erase name }) := by
  have hmodel := g.model_setModel_parents m ((g.model m).parents.erase name)
  refine ⟨⟨fun n id hid => ?_, fun n => ?_⟩, rfl, fun n => ?_, fun n => ?_, fun n other p hp => ?_,
    fun n other p hp hne => ?_, fun _ => List.Sublist.refl _, fun _ _ he _ => he, fun _ => rfl,
    rfl, rfl⟩
  · rw [hmodel]
    exact hid
  · rw [hmodel]
  · rw [hmodel]
  · rw [hmodel]
  · rw [hmodel] at hp
    simp only at hp
    split at hp
    · rename_i hsame
      exact hsame ▸ OrderedMap.get?_of_get?_erase hp
    · exact hp
  · rw [hmodel]
    simp only
    split
    · rename_i hsame
      subst hsame
      rw [OrderedMap.get?_erase, if_neg, hp]
      rintro rfl
      exact hne (Option.some.inj (hp.symm.trans h))
    · exact hp

/-- Where the owner is a member, it may go. -/
theorem removeMember {c : Collection} {key : String}
    (h : (g.collection c).keyOf? owner = some key) :
    g.Unlinks owner (g.setCollection c
      { g.collection c with members := (g.collection c).members.erase key }) := by
  have hfiled : ((key, owner) : String × Model) ∈ (g.collection c).members.entries := by
    obtain ⟨e, he, hkey⟩ := Option.map_eq_some_iff.mp h
    have howner : e.2 = owner := by simpa using List.find?_some he
    rw [← hkey, ← howner]
    exact List.mem_of_find?_eq_some he
  refine ⟨⟨fun _ _ hid => hid, fun _ => rfl⟩, rfl, fun _ => rfl, fun _ => rfl, fun _ _ _ hp => hp,
    fun _ _ _ hp _ => hp, fun e => ?_, fun e x hx hne => ?_, fun e => ?_, rfl, rfl⟩
  · rw [collection_setCollection]
    split
    · rename_i hsame
      subst hsame
      exact List.filter_sublist
    · exact List.Sublist.refl _
  · rw [collection_setCollection]
    split
    · rename_i hsame
      subst hsame
      refine List.mem_filter.mpr ⟨hx, ?_⟩
      have hkey : x.1 ≠ key := by
        rintro rfl
        have hfound := OrderedMap.get?_eq_some_iff.mpr hx
        rw [OrderedMap.get?_eq_some_iff.mpr hfiled] at hfound
        exact hne (Option.some.inj hfound).symm
      simpa using hkey
    · exact hx
  · rw [collection_setCollection]
    split
    · rename_i hsame
      rw [hsame]
    · rfl

end Unlinks

/-- The owner was taken off the way back of a model, if there is one. -/
structure UnlinkedFrom (g g' : Graph MemoryStore) (m : Model) (back : Option String)
    (owner : Model) : Prop where
  unlinks : g.Unlinks owner g'
  parent : ∀ name, back = some name → (g'.model m).parents.get? name ≠ some owner
  members : ∀ name c, back = some name → (g.model m).children.get? name = some c →
    (g'.collection c).members.values = (g.collection c).members.values.erase owner

end Graph

/-- Removing a model from a collection, wherever it is filed, does nothing else. -/
theorem Collection.returns_removeModel {g g' : Graph MemoryStore} {c : Collection} {owner : Model}
    {gone : Option Model} (h : Returns (c.removeModel owner) g gone g') :
    g.Unlinks owner g' ∧ g'.store = g.store ∧ (∀ n, g'.model n = g.model n) ∧
      (g'.collection c).members.values = (g.collection c).members.values.erase owner := by
  simp only [removeModel, returns_bind, returns_data, and_assoc, exists_eq_left] at h
  split at h
  · rename_i hkey
    obtain ⟨rfl, -⟩ := returns_pure.mp h
    refine ⟨.refl owner _, rfl, fun _ => rfl, (List.erase_of_not_mem fun hmem => ?_).symm⟩
    rw [← CollectionData.containsModel_iff, CollectionData.containsModel, hkey] at hmem
    cases hmem
  · rename_i key hkey
    simp only [remove, returns_bind, returns_data, returns_update, returns_pure, and_assoc,
      exists_eq_left] at h
    obtain ⟨⟨⟩, rfl, -⟩ := h
    refine ⟨.removeMember hkey, rfl, fun _ => rfl, ?_⟩
    rw [Graph.collection_setCollection, if_pos rfl]
    exact CollectionData.values_erase_keyOf hkey

namespace Model

variable {g g' : Graph MemoryStore} {m owner : Model} {name : String}

/-- Unlinking takes the owner off the way back and does nothing else. -/
theorem returns_unlink {u : Unit} (h : Returns (m.unlink name owner) g u g') :
    g.UnlinkedFrom g' m (some name) owner ∧ g'.store = g.store ∧
      ∀ n, (g'.model n).record = (g.model n).record := by
  unfold unlink at h
  extract_lets fromCollection at h
  have hlast : ∀ t, Returns (fromCollection ⟨⟩) t u g' →
      t.Unlinks owner g' ∧ g'.store = t.store ∧ (∀ n, g'.model n = t.model n) ∧
        ∀ c, (t.model m).children.get? name = some c →
          (g'.collection c).members.values = (t.collection c).members.values.erase owner := by
    intro t hrun
    simp only [fromCollection, returns_bind, returns_cachedChildren, and_assoc,
      exists_eq_left] at hrun
    cases hloaded : (t.model m).children.get? name with
    | none =>
        rw [hloaded] at hrun
        obtain ⟨rfl, -⟩ := returns_pure.mp hrun
        exact ⟨.refl owner _, rfl, fun _ => rfl, by simp⟩
    | some c =>
        simp only [hloaded, returns_bind, returns_pure] at hrun
        obtain ⟨gone, last, hremove, rfl, -⟩ := hrun
        obtain ⟨hunlinks, hstore, hmodel, hmembers⟩ := Collection.returns_removeModel hremove
        refine ⟨hunlinks, hstore, hmodel, fun e he => ?_⟩
        obtain rfl := Option.some.inj he
        exact hmembers
  simp only [returns_bind, returns_cachedParent, and_assoc, exists_eq_left] at h
  by_cases hparent : (g.model m).parents.get? name = some owner
  · rw [if_pos hparent, returns_bind] at h
    obtain ⟨⟨⟩, between, hremove, hrest⟩ := h
    obtain rfl := returns_removeParent.mp hremove
    obtain ⟨hunlinks, hstore, hmodel, hmembers⟩ := hlast _ hrest
    refine ⟨⟨(Graph.Unlinks.removeParent hparent).trans hunlinks, ?_, ?_⟩, hstore, fun n => ?_⟩
    · rintro other hother
      obtain rfl := Option.some.inj hother
      rw [hmodel, Graph.model_setModel, if_pos rfl]
      simp
    · rintro other c hother hc
      obtain rfl := Option.some.inj hother
      exact hmembers c (by simpa using hc)
    · rw [hmodel, Graph.model_setModel]
      split
      · rename_i hsame
        rw [hsame]
      · rfl
  · rw [if_neg hparent] at h
    obtain ⟨hunlinks, hstore, hmodel, hmembers⟩ := hlast _ h
    refine ⟨⟨hunlinks, ?_, ?_⟩, hstore, fun n => by rw [hmodel]⟩
    · rintro other hother
      obtain rfl := Option.some.inj hother
      rw [hmodel]
      exact hparent
    · rintro other c hother hc
      obtain rfl := Option.some.inj hother
      exact hmembers c hc

variable {r : Resolved} {id : String}

/-- Storing a removed model: the identifier goes from its key, the owner from the way back, and
then its record is stored. What the relationships still loaded keep true of the key is true of
the stored record. -/
theorem returns_saveUnlinked {u : Unit} (hplain : r.foreignKey.Plain) (hg : g.WellFormed)
    (hm : g.HasModel m) (h : Returns (owner.saveUnlinked r id m) g u g') :
    g.Unlinks owner g' ∧ g'.WellFormed ∧ g.Grows g' ∧ g.Writes g' m ∧
      ∃ between, g.UnlinkedFrom between m (r.inverseOn? (g.model m).modelType.name) owner ∧
        ∀ P, between.SyncKeeps m r.foreignKey P →
          P ((r.cardinality.keeps ((g.keyIds r.foreignKey m).filter (· ≠ id))).filter (· ≠ "")) →
            P (g'.keyIds r.foreignKey m) := by
  unfold saveUnlinked at h
  obtain ⟨⟨⟩, cleared, hclear, h⟩ := returns_bind.mp h
  have hcleared := returns_updateRecord.mp hclear
  obtain ⟨t, read, htype, h⟩ := returns_bind.mp h
  obtain ⟨hread, rfl⟩ := returns_modelType.mp htype
  rw [hread] at h
  have hstores : g.OnlyStores cleared := by
    rw [hcleared]
    exact .setRecord hm (by simp) (by simp)
  have hwellFormed := hstores.wellFormed hg
  have hmade : cleared.HasModel m := (hstores.hasModel m).mpr hm
  have hheld : cleared.keyIds r.foreignKey m =
      (r.cardinality.keeps ((g.keyIds r.foreignKey m).filter (· ≠ id))).filter (· ≠ "") := by
    rw [hcleared, Graph.keyIds, Graph.model_setRecord, if_pos rfl,
      Record.referenceIds_setReferenceIds hplain, if_pos rfl]
    rfl
  have hunlinked : ∃ between,
      cleared.UnlinkedFrom between m (r.inverseOn? (g.model m).modelType.name) owner ∧
        between.store = cleared.store ∧
        (∀ n, (between.model n).record = (cleared.model n).record) ∧ between.WellFormed ∧
        cleared.Grows between ∧ Returns m.saveRecord between u g' := by
    rw [← hstores.modelType m]
    cases hback : r.inverseOn? (cleared.model m).modelType.name with
    | none =>
        simp only [hback] at h
        exact ⟨cleared, ⟨.refl owner _, by simp, by simp⟩, rfl, fun _ => rfl, hwellFormed,
          Graph.Grows.refl _, h⟩
    | some back =>
        simp only [hback, returns_bind] at h
        obtain ⟨⟨⟩, between, hunlink, hsave⟩ := h
        obtain ⟨hfrom, hstore, hrecord⟩ := returns_unlink hunlink
        have hbefore : cleared.Sound fun _ => True := ⟨hwellFormed, trivial⟩
        obtain ⟨hsound, hgrows, -⟩ := (upholds_unlink hbefore hmade).of_returns hunlink
        exact ⟨between, hfrom, hstore, hrecord, hsound.wellFormed, hgrows, hsave⟩
  obtain ⟨between, hfrom, hstore, hrecord, hbetween, hgrows, hsave⟩ := hunlinked
  obtain ⟨hsaved, hwrites, hkeeps⟩ := returns_saveRecord hbetween (hgrows.model m hmade) hsave
  have hrecordBefore : ∀ n, n ≠ m → (between.model n).record = (g.model n).record := by
    intro n hn
    rw [hrecord, hcleared, Graph.model_setRecord, if_neg hn.symm]
  have hstoredBefore : ∀ entityType id, between.stored entityType id = g.stored entityType id := by
    intro entityType id
    rw [Graph.stored, hstore, hcleared]
    rfl
  have hunlinks := ((hstores.unlinks owner).trans hfrom.unlinks).trans (hsaved.unlinks owner)
  refine ⟨hunlinks, hsaved.wellFormed hbetween, (hstores.grows.trans hgrows).trans hsaved.grows,
    ⟨fun n hn => ?_, hwrites.id, fun entityType id => ?_⟩, between, ⟨?_, hfrom.parent, ?_⟩,
    fun P hsync hstart => ?_⟩
  · rw [hwrites.others n hn, hrecordBefore n hn]
  · rw [hwrites.stored, hstoredBefore]
  · exact (hstores.unlinks owner).trans hfrom.unlinks
  · intro name c hname hc
    rw [← hstores.collection c]
    exact hfrom.members name c hname (by rwa [hstores.children m])
  · refine hkeeps r.foreignKey P hplain hsync ?_
    rw [← hheld] at hstart
    rw [Graph.keyIds, hrecord]
    exact hstart

/-- Storing all removed models. For some models `S` the relationships still loaded are known to
keep a property of the key that it gets when the identifier goes; what is stored of such a
model has the property, if its key was fit for it before. -/
theorem returns_unlinkAll {gone : List Model} {u : PUnit} (hplain : r.foreignKey.Plain)
    (hg : g.WellFormed) (hmade : ∀ n ∈ gone, g.HasModel n) {F P : List String → Prop}
    {S : Model → Prop}
    (hremove : ∀ n ∈ gone, S n → ∀ ids, F ids →
      P ((r.cardinality.keeps (ids.filter (· ≠ id))).filter (· ≠ "")))
    (hfit : ∀ ids, P ids → F ids)
    (hkeeps : ∀ n ∈ gone, S n → ∀ t between, g.Unlinks owner t →
      t.UnlinkedFrom between n (r.inverseOn? (g.model n).modelType.name) owner →
      between.SyncKeeps n r.foreignKey P)
    (h : Returns (gone.forM (owner.saveUnlinked r id)) g u g') :
    g.Unlinks owner g' ∧ g'.WellFormed ∧ g.Grows g' ∧
      (∀ n, S n → F (g.keyIds r.foreignKey n) → F (g'.keyIds r.foreignKey n)) ∧
      (∀ n ∈ gone, (g'.model n).record.id.isSome) ∧
      ∀ entityType other, g.LastWrites g' gone
        (fun n record => S n → F (g.keyIds r.foreignKey n) →
          P (record.referenceIds r.foreignKey.field r.foreignKey.column)) entityType other := by
  let R (t t' : Graph MemoryStore) : Prop := t.Unlinks owner t' ∧ (t.WellFormed → t'.WellFormed) ∧
    t.Grows t' ∧ ∀ n, S n → F (t.keyIds r.foreignKey n) → F (t'.keyIds r.foreignKey n)
  have hturn : ∀ n ∈ gone, ∀ t t', R g t → Returns (owner.saveUnlinked r id n) t () t' →
      R t t' ∧ t.Writes t' n ∧ (S n → F (g.keyIds r.foreignKey n) →
        P ((t'.model n).record.referenceIds r.foreignKey.field r.foreignKey.column)) := by
    rintro n hn t t' ⟨hunlinks, hwf, hgrows, hsofar⟩ hrun
    obtain ⟨hnext, hwf', hgrows', hwrites, between, hfrom, hkey⟩ := returns_saveUnlinked hplain
      (hwf hg) (hgrows.model n (hmade n hn)) hrun
    have hown : S n → F (t.keyIds r.foreignKey n) → P (t'.keyIds r.foreignKey n) := by
      intro hS hstart
      rw [hunlinks.modelType n] at hfrom
      exact hkey P (hkeeps n hn hS t between hunlinks hfrom) (hremove n hn hS _ hstart)
    refine ⟨⟨hnext, fun _ => hwf', hgrows', fun x hx hstart => ?_⟩, hwrites,
      fun hS hstart => hown hS (hsofar n hS hstart)⟩
    by_cases hsame : x = n
    · subst hsame
      exact hfit _ (hown hx hstart)
    · rw [Graph.keyIds, hwrites.others x hsame]
      exact hstart
  obtain ⟨⟨hunlinks, hwf, hgrows, hkept⟩, hids, hwritten⟩ := h.saves (R := R)
    (W := fun n record => S n → F (g.keyIds r.foreignKey n) →
      P (record.referenceIds r.foreignKey.field r.foreignKey.column))
    (fun t => ⟨.refl owner t, fun h => h, Graph.Grows.refl t, fun _ _ h => h⟩)
    (fun first second => ⟨first.1.trans second.1, second.2.1 ∘ first.2.1,
      first.2.2.1.trans second.2.2.1,
      fun n hn hstart => second.2.2.2 n hn (first.2.2.2 n hn hstart)⟩)
    (fun hR => hR.1.keepsIds) hturn
  exact ⟨hunlinks, hwf hg, hgrows, hkept, hids, hwritten⟩

end Model

/-! ## The whole relationship -/

namespace Collection

variable {g g' : Graph MemoryStore} {c : Collection}

/-- What is to be deleted are the stored ones of the removed models. -/
theorem returns_modelsToDelete {σ : Type} {g g' : Graph σ} {gone : List Model}
    (h : Returns c.modelsToDelete g gone g') : g' = g ∧
      gone = (g.collection c).removed.filter fun m => !(g.model m).record.isNew := by
  simp only [modelsToDelete, returns_bind, returns_data, returns_get, returns_pure, and_assoc,
    exists_eq_left] at h
  exact h

theorem returns_markSaved {u : Unit} (h : Returns c.markSaved g u g') : g' = g.setCollection c
    { g.collection c with snapshot := (g.collection c).members } :=
  returns_update.mp h

end Collection

namespace Graph

/-- The models that were removed from a collection, of those that are stored by now. -/
def removedStored {σ : Type} (g : Graph σ) (c : Collection) : List Model :=
  (g.collection c).removed.filter fun m => !(g.model m).record.isNew

/-- A removed model that is stored stays one as long as the collection stays as it is. -/
theorem Grows.removedStored_subset {σ : Type} {g g' : Graph σ} (h : g.Grows g')
    (hg : g.WellFormed) {c : Collection} (hc : g.HasCollection c)
    (hcollection : g'.collection c = g.collection c) :
    g.removedStored c ⊆ g'.removedStored c := by
  intro m hm
  obtain ⟨hremoved, hstored⟩ := List.mem_filter.mp hm
  refine List.mem_filter.mpr ⟨hcollection ▸ hremoved, ?_⟩
  rw [Bool.not_eq_true', Bool.eq_false_iff]
  intro hnew
  have hbefore := h.stored m (hg.removedMember hc hremoved) hnew
  simp [hbefore] at hstored

/-- They are what a collection is to delete. -/
theorem returns_removedStored {σ : Type} (g : Graph σ) (c : Collection) :
    Returns c.modelsToDelete g (g.removedStored c) g := rfl

/-- Storing models changes which of the removed ones are stored, not which ones are removed. -/
theorem OnlyStores.mem_removedStored {g g' : Graph MemoryStore} (h : g.OnlyStores g')
    {c : Collection} {m : Model} : m ∈ g'.removedStored c ↔
      m ∈ (g.collection c).removed ∧ (g'.model m).record.isNew = false := by
  rw [removedStored, List.mem_filter, h.collection c, Bool.not_eq_true']

end Graph

namespace Model

variable {g g' : Graph MemoryStore} {m : Model} {r : Resolved} {name id : String} {c : Collection}

/-- The three steps, and the new snapshot in the end. -/
theorem returns_saveChildren {u : Unit} (hplain : r.foreignKey.Plain)
    (hg : g.WellFormed) (hc : g.HasCollection c)
    (h : Returns (m.saveChildren r name id c) g u g') :
    ∃ stamped saved last relationship, g.OnlyStores stamped ∧ stamped.store = g.store ∧
      (∀ n, n ∉ (g.collection c).members.values →
        (stamped.model n).record = (g.model n).record) ∧
      (id ≠ "" → ∀ n ∈ (g.collection c).members.values,
        r.cardinality.RefersTo id (stamped.keyIds r.foreignKey n)) ∧
      Returns c.saveModels stamped () saved ∧
      (g.model m).modelType.relationship name = .ok relationship ∧
      Returns ((saved.removedStored c).forM
        (if relationship.cascadingDelete then Model.delete else m.saveUnlinked r id))
        saved () last ∧
      g' = last.setCollection c
        { last.collection c with snapshot := (last.collection c).members } := by
  simp only [saveChildren, returns_bind, Collection.returns_models, returns_modelType,
    returns_ofExcept, and_assoc, exists_eq_left] at h
  obtain ⟨⟨⟩, stamped, hstamp, relationship, hrelationship, h⟩ := h
  obtain ⟨hstores, hstore, hothers, hrefers⟩ :=
    returns_stamp hplain (fun n hn => hg.member hc hn) hstamp
  rw [hstores.modelType m] at hrelationship
  refine ⟨stamped, ?_⟩
  split at h
  · rename_i hcascades
    simp only [Collection.saveMembers, returns_bind] at h
    obtain ⟨⟨⟩, saved, hsave, gone, _, hgone, ⟨⟩, last, hlast, hmark⟩ := h
    obtain ⟨rfl, rfl⟩ := Collection.returns_modelsToDelete hgone
    exact ⟨_, last, relationship, hstores, hstore, hothers, hrefers, hsave, hrelationship,
      by rw [if_pos hcascades]; exact hlast, Collection.returns_markSaved hmark⟩
  · rename_i hcascades
    simp only [returns_bind] at h
    obtain ⟨⟨⟩, saved, hsave, gone, _, hgone, ⟨⟩, last, hlast, hmark⟩ := h
    obtain ⟨rfl, rfl⟩ := Collection.returns_modelsToDelete hgone
    exact ⟨_, last, relationship, hstores, hstore, hothers, hrefers, hsave, hrelationship,
      by rw [if_neg hcascades]; exact hlast, Collection.returns_markSaved hmark⟩

/-- Saving a relationship by its name, from a stored owner that has a collection loaded there. -/
theorem returns_save_children {u : Unit}
    (hresolve : g.registry.resolve (g.model m).modelType.name name = .ok r)
    (hside : r.side = .child) (hid : (g.model m).record.id = some id)
    (hloaded : (g.model m).children.get? name = some c)
    (h : Returns ((Related.model m).save (some [name])) g u g') :
    Returns (m.saveChildren r name id c) g () g' := by
  change Returns (m.saveRelationship name) g u g' at h
  simp only [saveRelationship, returns_bind, returns_resolve, and_assoc, exists_eq_left] at h
  obtain ⟨resolved, hresolved, h⟩ := h
  obtain rfl : r = resolved := Except.ok.inj (hresolve.symm.trans hresolved)
  simp only [hside, returns_bind, returns_storedId, returns_cachedChildren, and_assoc,
    exists_eq_left] at h
  obtain ⟨stored, hstored, h⟩ := h
  obtain rfl : id = stored := Option.some.inj (hid.symm.trans hstored)
  simpa only [hloaded] using h

end Model

end RecordGraph
