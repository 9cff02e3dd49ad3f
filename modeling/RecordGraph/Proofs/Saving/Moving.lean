/-
# Moving a model from one owner to another

A model that was removed from the collection of one owner and put into the relationship of
another one has the second owner on the way back and its identifier in the key. Where the
relationship does not cascade, both owners can then be saved in either order: the first owner
takes only itself off the way back, and what the model has loaded names the second one. A
cascading relationship deletes what was removed, and so undoes the move if the new owner is
saved first.
-/
import RecordGraph.Proofs.Saving.Putting
import RecordGraph.Proofs.Saving.Stamping
import RecordGraph.Proofs.Saving.Unlinking

namespace RecordGraph

/-! ## A model that belongs to an owner -/

namespace Graph

variable {σ : Type}

/-- The single key of the model holds the identifier of the owner, and what the model has
loaded calls for the same. -/
structure Belongs (g : Graph σ) (m : Model) (k : ForeignKey) (id : String) : Prop where
  key : g.keyIds k m = [id]
  loaded : g.KeepsReference m k .single id

/-- Models that wrap the same record go on doing so. -/
theorem KeepsIds.sameRecord {g t : Graph σ} (h : g.KeepsIds t) {m n : Model}
    (hsame : g.SameRecord m n) : t.SameRecord m n := by
  obtain ⟨hid, heq, hentity⟩ := hsame
  obtain ⟨id, hown⟩ := Option.isSome_iff_exists.mp hid
  exact sameRecord_of_isStoredAs (h.isStoredAs ⟨rfl, hown⟩)
    (h.isStoredAs ⟨hentity.symm, heq.symm.trans hown⟩)

/-- The snapshot may be replaced by the members. -/
theorem WellFormed.markSaved {σ : Type} {g : Graph σ} {c : Collection} (hg : g.WellFormed)
    (hc : g.HasCollection c) :
    (g.setCollection c { g.collection c with
        snapshot := (g.collection c).members }).WellFormed ∧
      g.Grows (g.setCollection c { g.collection c with
        snapshot := (g.collection c).members }) := by
  have hfits := hg.collections c hc
  exact hg.setCollection hc ⟨hfits.admits, hfits.members, hfits.members, hfits.filed⟩

/-- A single key stays in line with what is loaded as long as nothing more is loaded. -/
theorem KeepsReference.later {g t : Graph σ} {m : Model} {k : ForeignKey} {id : String}
    (h : g.KeepsReference m k .single id) (hregistry : t.registry = g.registry)
    (htype : (t.model m).modelType = (g.model m).modelType) (hids : g.KeepsIds t)
    (hparents : ∀ name p, (t.model m).parents.get? name = some p →
      (g.model m).parents.get? name = some p)
    (hchildren : (t.model m).children = (g.model m).children) :
    t.KeepsReference m k .single id where
  parent name r p hresolve hfield hsingle hloaded := by
    rw [hregistry, htype] at hresolve
    obtain ⟨hkey, hid⟩ := h.parent name r p hresolve hfield hsingle (hparents name p hloaded)
    exact ⟨hkey, hids.id p id hid⟩
  children name r e hresolve hfield hmultiple hside hloaded := by
    rw [hregistry, htype] at hresolve
    rw [hchildren] at hloaded
    obtain ⟨-, hcard, -⟩ := h.children name r e hresolve hfield hmultiple hside hloaded
    cases hcard

theorem KeepsReference.unlinks {g t : Graph MemoryStore} {m owner : Model} {k : ForeignKey}
    {id : String} (h : g.KeepsReference m k .single id) (ht : g.Unlinks owner t) :
    t.KeepsReference m k .single id :=
  h.later ht.registry (ht.modelType m) ht.keepsIds (ht.parents m) (ht.children m)

/-- What a run of saves leaves under an identifier, if one model is the only one among those
saved that could be stored there. -/
theorem LastWrites.of_only {g g' : Graph MemoryStore} {ms : List Model} {m : Model}
    {W : Model → Record → Prop} {entityType id : String}
    (h : g.LastWrites g' ms W entityType id) (hat : g'.IsStoredAs m entityType id)
    (honly : ∀ n ∈ ms, g'.IsStoredAs n entityType id → n = m) :
    (m ∉ ms ∧ g'.stored entityType id = g.stored entityType id) ∨
      ∃ record, g'.stored entityType id = some record ∧ W m record := by
  cases h with
  | before hsame hnone => exact .inl ⟨fun hm => hnone m hm hat, hsame⟩
  | written n hn hatn record hrecord hW =>
      obtain rfl := honly n hn hatn
      exact .inr ⟨record, hrecord, hW⟩

/-- The same after two runs. -/
theorem LastWrites.of_only_twice {g between g' : Graph MemoryStore} {ms more : List Model}
    {m : Model} {W V : Model → Record → Prop} {entityType id : String}
    (h : g.LastWrites between ms W entityType id)
    (hmore : between.LastWrites g' more V entityType id) (hids : between.KeepsIds g')
    (hat : between.IsStoredAs m entityType id)
    (honly : ∀ n, n ∈ ms ∨ n ∈ more → g'.IsStoredAs n entityType id → n = m) :
    (m ∉ ms ∧ g'.stored entityType id = g.stored entityType id) ∨
      ∃ record, g'.stored entityType id = some record ∧ (W m record ∨ V m record) := by
  rcases hmore.of_only (hids.isStoredAs hat) (fun n hn => honly n (.inr hn)) with
    ⟨-, hsame⟩ | ⟨record, hrecord, hV⟩
  · rw [hsame]
    rcases h.of_only hat (fun n hn hatn => honly n (.inl hn) (hids.isStoredAs hatn)) with
      hbefore | ⟨record, hrecord, hW⟩
    · exact .inl hbefore
    · exact .inr ⟨record, hrecord, .inl hW⟩
  · exact .inr ⟨record, hrecord, .inr hV⟩

end Graph

/-! ## Saving an owner that does not delete -/

namespace Model

variable {g g' : Graph MemoryStore} {owner m : Model} {r : Resolved}
  {name id own entityType ownId : String} {c : Collection} {declared : Relationship}

/-- Storing models that were removed from the collection of another owner leaves the key of a
model that belongs to an owner. -/
theorem returns_unlinkAll_belonging {gone : List Model} (hplain : r.foreignKey.Plain)
    (hsingle : r.cardinality = .single) (hblank : id ≠ "") (hg : g.WellFormed)
    (hmade : ∀ n ∈ gone, g.HasModel n) (hloaded : g.KeepsReference m r.foreignKey .single id)
    (hremoved : m ∈ gone → own ≠ id)
    (h : Returns (gone.forM (owner.saveUnlinked r own)) g () g') :
    g.Unlinks owner g' ∧ g'.WellFormed ∧ g.Grows g' ∧
      (g.keyIds r.foreignKey m = [id] → g'.keyIds r.foreignKey m = [id]) ∧
      ∀ entityType other, g.LastWrites g' gone
        (fun n record => n = m → g.keyIds r.foreignKey n = [id] →
          record.referenceIds r.foreignKey.field r.foreignKey.column = [id])
        entityType other := by
  have hkept : ∀ n ∈ gone, n = m → ∀ ids, ids = [id] →
      (r.cardinality.keeps (ids.filter (· ≠ own))).filter (· ≠ "") = [id] := by
    rintro n hn rfl ids rfl
    simp [hsingle, Cardinality.keeps, hblank, Ne.symm (hremoved hn)]
  have hsync : ∀ n ∈ gone, n = m → ∀ t between, g.Unlinks owner t →
      t.UnlinkedFrom between n (r.inverseOn? (g.model n).modelType.name) owner →
      between.SyncKeeps n r.foreignKey (· = [id]) := by
    rintro n - rfl t between ht hfrom
    have hlater := hloaded.unlinks (ht.trans hfrom.unlinks)
    exact hlater.syncKeeps hblank (.refl between)
  obtain ⟨hunlinks, hwellFormed, hgrows, hkey, -, hwritten⟩ :=
    returns_unlinkAll hplain hg hmade hkept (fun _ hids => hids) hsync h
  exact ⟨hunlinks, hwellFormed, hgrows, hkey m rfl, hwritten⟩

/-- Saving a relationship that does not cascade leaves a model with the owner that it belongs
to: as a member, if this is the owner that is saved, and removed or not, if it is another one. -/
theorem returns_saveChildren_belonging (hg : g.WellFormed) (hc : g.HasCollection c)
    (hdeclared : (g.model owner).modelType.relationship name = .ok declared)
    (hcascades : declared.cascadingDelete = false) (hplain : r.foreignKey.Plain)
    (hsingle : r.cardinality = .single) (hblank : id ≠ "")
    (hat : g.IsStoredAs m entityType ownId) (hbelongs : g.Belongs m r.foreignKey id)
    (hmember : m ∈ (g.collection c).members.values → own = id)
    (hremoved : m ∈ (g.collection c).removed → own ≠ id)
    (h : Returns (owner.saveChildren r name own c) g () g') :
    g'.WellFormed ∧ g.Grows g' ∧ g'.Belongs m r.foreignKey id ∧
      (∃ last, g.Unlinks owner last ∧ g' = last.setCollection c
        { last.collection c with snapshot := (last.collection c).members }) ∧
      ((∀ n ∈ (g.collection c).members.values ++ (g.collection c).snapshot.values,
          n ≠ m → ¬ g'.SameRecord n m) →
        (m ∉ (g.collection c).members.values ∧
            g'.stored entityType ownId = g.stored entityType ownId) ∨
          ∃ record, g'.stored entityType ownId = some record ∧
            record.referenceIds r.foreignKey.field r.foreignKey.column = [id]) := by
  obtain ⟨stamped, saved, last, relationship, hstamped, hstore, hothers, hrefers, hmembers,
    hrelationship, hlast, rfl⟩ := returns_saveChildren hplain hg hc h
  obtain rfl : declared = relationship := Except.ok.inj (hdeclared.symm.trans hrelationship)
  rw [if_neg (by simp [hcascades])] at hlast
  have hstampedKey : stamped.keyIds r.foreignKey m = [id] := by
    by_cases hm : m ∈ (g.collection c).members.values
    · obtain rfl := hmember hm
      have hown := hrefers hblank m hm
      rwa [hsingle] at hown
    · rw [Graph.keyIds, hothers m hm]
      exact hbelongs.key
  have hsync : ∀ n, n = m → ∀ t, stamped.OnlyStores t →
      t.SyncKeeps n r.foreignKey (· = [id]) := by
    rintro n rfl t ht
    exact hbelongs.loaded.syncKeeps hblank (hstamped.trans ht)
  obtain ⟨hsaved, hkeptKey, -, hwritten⟩ := Collection.returns_saveModels
    (hstamped.wellFormed hg) ((hstamped.hasCollection c).mpr hc) hplain hsync hmembers
  have hstores := hstamped.trans hsaved
  have hgone : ∀ n ∈ saved.removedStored c, n ∈ (g.collection c).removed :=
    fun _ hn => (hstores.mem_removedStored.mp hn).1
  obtain ⟨hunlinks, hwellFormed, hgrows, hkeptLast, hwrittenLast⟩ :=
    returns_unlinkAll_belonging hplain hsingle hblank (hstores.wellFormed hg)
      (fun n hn => (hstores.hasModel n).mpr (hg.removedMember hc (hgone n hn)))
      (hbelongs.loaded.unlinks (hstores.unlinks owner)) (fun hm => hremoved (hgone m hm)) hlast
  have hall := (hstores.unlinks owner).trans hunlinks
  obtain ⟨hmarked, hgrowsMarked⟩ := hwellFormed.markSaved
    (hgrows.collection c ((hstores.hasCollection c).mpr hc))
  have hkeySaved := hkeptKey m rfl hstampedKey
  have hloaded : (last.setCollection c { last.collection c with
      snapshot := (last.collection c).members }).KeepsReference m r.foreignKey .single id :=
    (hbelongs.loaded.unlinks hall).later rfl rfl
      ⟨fun _ _ hid => hid, fun _ => rfl⟩ (fun _ _ hp => hp) rfl
  refine ⟨hmarked, (hstores.grows.trans hgrows).trans hgrowsMarked,
    ⟨hkeptLast hkeySaved, hloaded⟩, ⟨last, hall, rfl⟩, fun hapart => ?_⟩
  have honly : ∀ n, n ∈ (stamped.collection c).members.values ∨ n ∈ saved.removedStored c →
      last.IsStoredAs n entityType ownId → n = m := by
    intro n hn hatn
    by_contra hne
    rw [hstamped.collection] at hn
    refine hapart n ?_ hne (Graph.sameRecord_of_isStoredAs hatn (hall.keepsIds.isStoredAs hat))
    exact List.mem_append.mpr
      (hn.imp_right fun hn => CollectionData.mem_snapshot_of_mem_removed (hgone n hn))
  have hbefore : stamped.stored entityType ownId = g.stored entityType ownId := by
    rw [Graph.stored, hstore, Graph.stored]
  have hlastWrites := (hwritten entityType ownId).of_only_twice (hwrittenLast entityType ownId)
    hunlinks.keepsIds (hstores.keepsIds.isStoredAs hat) honly
  rw [hstamped.collection, hbefore] at hlastWrites
  refine hlastWrites.imp_right ?_
  rintro ⟨record, hrecord, hkey | hkey⟩
  · exact ⟨record, hrecord, hkey rfl hstampedKey⟩
  · exact ⟨record, hrecord, hkey rfl hkeySaved⟩

end Model

/-! ## The owner that a model is put to -/

namespace Graph

variable {g t : Graph MemoryStore} {owner far : Model} {name id : String} {r : Resolved}
  {c : Collection}

/-- Nothing that the model has loaded is written to the field of the key, but for what it may
have loaded under the name of the way back. -/
structure KeyedBy {σ : Type} (g : Graph σ) (m : Model) (k : ForeignKey) (back : Option String) :
    Prop where
  parent : ∀ name r, g.registry.resolve (g.model m).modelType.name name = .ok r →
    r.foreignKey.field = k.field → r.cardinality = .single → back ≠ some name →
    (g.model m).parents.get? name = none
  children : ∀ name r, g.registry.resolve (g.model m).modelType.name name = .ok r →
    r.foreignKey.field = k.field → r.cardinality = .multiple → r.side = .parent →
    (g.model m).children.get? name = none

/-- A model that is put into a relationship belongs to the owner, if it has loaded nothing else
along the key. -/
theorem Connects.belongs (h : g.Connects t owner far name
      (r.inverseOn? (g.model far).modelType.name) c) (hg : g.registry.WellFormed)
    (hresolve : g.registry.resolve (g.model owner).modelType.name name = .ok r)
    (hside : r.side = .child) (hid : (g.model owner).record.id = some id)
    (hkeyed : g.KeyedBy far r.foreignKey (r.inverseOn? (g.model far).modelType.name))
    (hkey : t.keyIds r.foreignKey far = [id]) : t.Belongs far r.foreignKey id where
  key := hkey
  loaded :=
    { parent := fun other back p hback hfield hsingle hloaded => by
        rw [h.registry, h.modelType far] at hback
        rw [h.parents] at hloaded
        split at hloaded
        · rename_i hwayBack
          obtain ⟨-, hsame, -⟩ := Registry.wayBack_of_child hg hresolve hside hwayBack hback
          obtain rfl := Option.some.inj hloaded
          exact ⟨hsame, h.keepsIds.id owner id hid⟩
        · rename_i hother
          rw [hkeyed.parent other back hback hfield hsingle hother] at hloaded
          cases hloaded
      children := fun other back e hback hfield hmultiple hparent hloaded => by
        rw [h.registry, h.modelType far] at hback
        have hne : far ≠ owner ∨ other ≠ name := by
          by_contra hsame
          rw [not_or, not_not, not_not] at hsame
          obtain ⟨rfl, rfl⟩ := hsame
          obtain rfl := Except.ok.inj (hresolve.symm.trans hback)
          rw [hside] at hparent
          cases hparent
        rw [h.children far other hne,
          hkeyed.children other back hback hfield hmultiple hparent] at hloaded
        cases hloaded }

/-- The models that are filed under a key of their own are the members that cannot be taken for
removed ones. -/
structure FiledUnder (g : Graph MemoryStore) (c : Collection) (m : Model) (key : String) :
    Prop where
  member : (g.collection c).members.get? key = some m
  snapshot : ∀ other, (g.collection c).snapshot.get? other = some m → other = key

namespace FiledUnder

variable {m : Model} {key : String}

theorem mem (h : g.FiledUnder c m key) : m ∈ (g.collection c).members.values :=
  OrderedMap.mem_values_iff.mpr ⟨key, h.member⟩

theorem not_removed (h : g.FiledUnder c m key) : m ∉ (g.collection c).removed := by
  intro hm
  obtain ⟨e, he, rfl⟩ := List.mem_map.mp hm
  obtain ⟨hsnapshot, hgone⟩ := List.mem_filter.mp he
  have hkey := h.snapshot e.1 (OrderedMap.get?_eq_some_iff.mpr hsnapshot)
  have hheld : (g.collection c).members.contains e.1 = true := by
    rw [OrderedMap.contains, hkey, h.member]
    rfl
  rw [hheld] at hgone
  cases hgone

/-- Unloading another model leaves it filed. -/
theorem unlinks (h : g.FiledUnder c m key) (ht : g.Unlinks owner t) (hne : m ≠ owner) :
    t.FiledUnder c m key where
  member := OrderedMap.get?_eq_some_iff.mpr
    (ht.keptMembers c _ (OrderedMap.get?_eq_some_iff.mp h.member) hne)
  snapshot other := by
    rw [ht.snapshot c]
    exact h.snapshot other

end FiledUnder

/-- The model is filed in the collection of the owner that it belongs to, and is not a member of
the collection of another owner. -/
inductive Placed (g : Graph MemoryStore) (m : Model) (c : Collection) (id ownerId key : String) :
    Prop where
  | own (hfiled : g.FiledUnder c m key) (hid : id = ownerId)
  | other (hremoved : m ∉ (g.collection c).members.values) (hid : id ≠ ownerId)

theorem Placed.mem {m : Model} {ownerId key : String} (h : g.Placed m c id ownerId key)
    (hid : id = ownerId) : m ∈ (g.collection c).members.values := by
  cases h with
  | own hfiled _ => exact hfiled.mem
  | other _ hne => exact absurd hid hne

/-- A stored owner with a collection that is loaded along a relationship that does not
cascade. -/
structure Owns (g : Graph MemoryStore) (owner : Model) (name : String) (r : Resolved) (id : String)
    (c : Collection) : Prop where
  made : g.HasModel owner
  resolve : g.registry.resolve (g.model owner).modelType.name name = .ok r
  keeps : ∃ declared, (g.model owner).modelType.relationship name = .ok declared ∧
    declared.cascadingDelete = false
  id : (g.model owner).record.id = some id
  loaded : (g.model owner).children.get? name = some c

theorem Owns.later (h : g.Owns owner name r id c) (hgrows : g.Grows t) (hids : g.KeepsIds t)
    (hchildren : (t.model owner).children.get? name = some c) : t.Owns owner name r id c where
  made := hgrows.model owner h.made
  resolve := by
    rw [hgrows.registry, hgrows.modelType owner h.made]
    exact h.resolve
  keeps := by
    rw [hgrows.modelType owner h.made]
    exact h.keeps
  id := hids.id owner id h.id
  loaded := hchildren

/-- What saving one owner leaves of a model that belongs to this owner or to another one. -/
structure LeavesOwned (g t : Graph MemoryStore) (owner m : Model) (k : ForeignKey)
    (c : Collection) (entityType id ownerId : String) : Prop where
  wellFormed : t.WellFormed
  grows : g.Grows t
  keepsIds : g.KeepsIds t
  belongs : t.Belongs m k ownerId
  children : ∀ n, (t.model n).children = (g.model n).children
  others : ∃ last, g.Unlinks owner last ∧ ∀ e, e ≠ c → t.collection e = last.collection e
  stored : (∀ n ∈ (g.collection c).members.values ++ (g.collection c).snapshot.values,
      n ≠ m → ¬ t.SameRecord n m) →
    (m ∉ (g.collection c).members.values ∧ t.stored entityType id = g.stored entityType id) ∨
      ∃ record, t.stored entityType id = some record ∧
        record.referenceIds k.field k.column = [ownerId]

theorem Owns.save {m : Model} {entityType ownId ownerId key : String}
    (h : g.Owns owner name r id c)
    (hg : g.WellFormed) (hside : r.side = .child) (hplain : r.foreignKey.Plain)
    (hsingle : r.cardinality = .single) (hblank : ownerId ≠ "")
    (hat : g.IsStoredAs m entityType ownId) (hbelongs : g.Belongs m r.foreignKey ownerId)
    (hplaced : g.Placed m c id ownerId key)
    (hsave : Returns ((Related.model owner).save (some [name])) g () t) :
    g.LeavesOwned t owner m r.foreignKey c entityType ownId ownerId := by
  obtain ⟨declared, hdeclared, hcascades⟩ := h.keeps
  have hc := hg.children owner name c h.made h.loaded
  have hmember : m ∈ (g.collection c).members.values → id = ownerId := by
    cases hplaced with
    | own _ hid => exact fun _ => hid
    | other hremoved _ => exact fun hmem => absurd hmem hremoved
  have hremoved : m ∈ (g.collection c).removed → id ≠ ownerId := by
    cases hplaced with
    | own hfiled _ => exact fun hgone => absurd hgone hfiled.not_removed
    | other _ hid => exact fun _ => hid
  obtain ⟨hwellFormed, hgrows, hbelongsLast, ⟨last, hunlinks, rfl⟩, hstored⟩ :=
    Model.returns_saveChildren_belonging hg hc hdeclared hcascades hplain hsingle hblank hat
      hbelongs hmember hremoved
      (Model.returns_save_children h.resolve hside h.id h.loaded hsave)
  refine ⟨hwellFormed, hgrows, ⟨hunlinks.keepsIds.id, hunlinks.keepsIds.entityType⟩, hbelongsLast,
    hunlinks.children, ⟨last, hunlinks, fun e he => ?_⟩, hstored⟩
  rw [collection_setCollection, if_neg (Ne.symm he)]

namespace LeavesOwned

variable {m : Model} {k : ForeignKey} {e : Collection} {entityType ownId ownerId key : String}

theorem owns {other : Model} (h : g.LeavesOwned t owner m k c entityType ownId ownerId)
    (ho : g.Owns other name r id e) : t.Owns other name r id e :=
  ho.later h.grows h.keepsIds (by rw [h.children]; exact ho.loaded)

/-- In another collection there is nothing new. -/
theorem subset (h : g.LeavesOwned t owner m k c entityType ownId ownerId) (he : e ≠ c) {n : Model}
    (hn : n ∈ (t.collection e).members.values ++ (t.collection e).snapshot.values) :
    n ∈ (g.collection e).members.values ++ (g.collection e).snapshot.values := by
  obtain ⟨last, hunlinks, hothers⟩ := h.others
  rw [hothers e he, hunlinks.snapshot] at hn
  exact List.mem_append.mpr ((List.mem_append.mp hn).imp_left fun hmem =>
    (hunlinks.values e).subset hmem)

theorem placed (h : g.LeavesOwned t owner m k c entityType ownId ownerId) (he : e ≠ c)
    (hne : id = ownerId → m ≠ owner) (hplaced : g.Placed m e id ownerId key) :
    t.Placed m e id ownerId key := by
  obtain ⟨last, hunlinks, hothers⟩ := h.others
  have hsame := hothers e he
  cases hplaced with
  | own hfiled hid =>
      have hlast := hfiled.unlinks hunlinks (hne hid)
      exact .own ⟨by rw [hsame]; exact hlast.member, by rw [hsame]; exact hlast.snapshot⟩ hid
  | other hremoved hid =>
      refine .other (fun hmem => hremoved ?_) hid
      rw [hsame] at hmem
      exact (hunlinks.values e).subset hmem

end LeavesOwned

/-- Two owners are saved one after the other, one of which is the owner that the model belongs
to. -/
theorem Owns.save_both {g' : Graph MemoryStore} {first second m : Model} {e : Collection}
    {firstId secondId entityType ownId ownerId key : String}
    (hfirst : g.Owns first name r firstId c) (hsecond : g.Owns second name r secondId e)
    (hec : e ≠ c) (hg : g.WellFormed) (hside : r.side = .child) (hplain : r.foreignKey.Plain)
    (hsingle : r.cardinality = .single) (hblank : ownerId ≠ "")
    (hat : g.IsStoredAs m entityType ownId) (hbelongs : g.Belongs m r.foreignKey ownerId)
    (hfirstPlaced : g.Placed m c firstId ownerId key)
    (hsecondPlaced : g.Placed m e secondId ownerId key)
    (howner : firstId = ownerId ∨ secondId = ownerId) (hne : secondId = ownerId → m ≠ first)
    (hsaves : Returns (do
      (Related.model first).save (some [name])
      (Related.model second).save (some [name])) g () g')
    (hapart : ∀ d, d = c ∨ d = e → ∀ n ∈ (g.collection d).members.values ++
      (g.collection d).snapshot.values, n ≠ m → ¬ g'.SameRecord n m) :
    ∃ record, g'.stored entityType ownId = some record ∧
      record.referenceIds r.foreignKey.field r.foreignKey.column = [ownerId] := by
  obtain ⟨⟨⟩, t, hsaveFirst, hsaveSecond⟩ := returns_bind.mp hsaves
  have hleft := hfirst.save hg hside hplain hsingle hblank hat hbelongs hfirstPlaced hsaveFirst
  have hsecondPlacedLater := hleft.placed hec hne hsecondPlaced
  have hright := (hleft.owns hsecond).save hleft.wellFormed hside hplain hsingle hblank
    (hleft.keepsIds.isStoredAs hat) hleft.belongs hsecondPlacedLater hsaveSecond
  have hstoredFirst := hleft.stored fun n hn hnm hsame =>
    hapart c (.inl rfl) n hn hnm (hright.keepsIds.sameRecord hsame)
  have hstoredSecond := hright.stored fun n hn hnm =>
    hapart e (.inr rfl) n (hleft.subset hec hn) hnm
  rcases hstoredSecond with ⟨hnone, hsame⟩ | hrecord
  · rcases hstoredFirst with ⟨hnoneFirst, -⟩ | hrecord
    · rcases howner with hid | hid
      · exact absurd (hfirstPlaced.mem hid) hnoneFirst
      · exact absurd (hsecondPlacedLater.mem hid) hnone
    · rwa [hsame]
  · exact hrecord

end Graph

/-- Moving a model from one owner to another along a single key that does not cascade. The model
was removed from the collection of the first owner and is put into the relationship of the
second one; then both owners are saved, in either order. The record of the model is stored with
a key that names the second owner only, provided that along the key the model has loaded nothing
but the way back, and that neither collection has another model of the same record. -/
theorem save_moves {g₁ g g' : Graph MemoryStore} {p q m first second : Model}
    {name pid qid entityType id : String} {r : Resolved} {declared : Relationship}
    {c : Collection} (hg₁ : g₁.WellFormed) (hp : g₁.HasModel p) (hq : g₁.HasModel q)
    (hm : g₁.HasModel m) (hname : (g₁.model q).modelType.name = (g₁.model p).modelType.name)
    (hresolve : g₁.registry.resolve (g₁.model p).modelType.name name = .ok r)
    (hdeclared : (g₁.model p).modelType.relationship name = .ok declared)
    (hcascades : declared.cascadingDelete = false) (hside : r.side = .child)
    (hsingle : r.cardinality = .single) (hplain : r.foreignKey.Plain)
    (hpid : (g₁.model p).record.id = some pid) (hqid : (g₁.model q).record.id = some qid)
    (hblank : qid ≠ "") (hids : pid ≠ qid) (hat : g₁.IsStoredAs m entityType id) (hpm : m ≠ p)
    (hloaded : (g₁.model p).children.get? name = some c)
    (hremoved : m ∉ (g₁.collection c).members.values)
    (hdistinct : (g₁.model q).children.get? name ≠ some c)
    (hfiled : ∀ e key, (g₁.model q).children.get? name = some e →
      (g₁.collection e).snapshot.get? key = some m → key = (g₁.model m).key)
    (hkeyed : g₁.KeyedBy m r.foreignKey (r.inverseOn? (g₁.model m).modelType.name))
    (hput : Returns (q.put name m) g₁ () g)
    (horder : (first, second) = (p, q) ∨ (first, second) = (q, p))
    (hsaves : Returns (do
      (Related.model first).save (some [name])
      (Related.model second).save (some [name])) g () g')
    (hapart : ∀ owner ∈ [p, q], ∀ e, (g.model owner).children.get? name = some e →
      ∀ n ∈ (g.collection e).members.values ++ (g.collection e).snapshot.values,
        n ≠ m → ¬ g'.SameRecord n m) :
    ∃ record, g'.stored entityType id = some record ∧
      record.referenceIds r.foreignKey.field r.foreignKey.column = [qid] := by
  have htype : (g₁.model q).modelType = (g₁.model p).modelType := by
    have hget := hg₁.typed q hq
    rw [hname, hg₁.typed p hp] at hget
    exact (Except.ok.inj hget).symm
  have hresolveQ := hresolve
  rw [← hname] at hresolveQ
  obtain ⟨e, hconnects, hkey⟩ := Model.returns_put_child hresolveQ hside hsingle hplain hqid
    hblank hput
  have hbelongs := hconnects.belongs hg₁.registry hresolveQ hside hqid hkeyed hkey
  have hsound : g₁.Sound fun _ => True := ⟨hg₁, trivial⟩
  obtain ⟨⟨hg, -⟩, hgrows, -⟩ := (Model.upholds_put hsound hq hm name).of_returns hput
  have hpq : p ≠ q := by
    rintro rfl
    exact hids (Option.some.inj (hpid.symm.trans hqid))
  have hce : c ≠ e := by
    rintro rfl
    rcases hconnects.slot with hsame | ⟨-, hfresh⟩
    · exact hdistinct hsame
    · exact (hg₁.children p name c hp hloaded).ne_nextCollection hfresh
  have hownsP : g.Owns p name r pid c := Graph.Owns.later
    ⟨hp, hresolve, ⟨declared, hdeclared, hcascades⟩, hpid, hloaded⟩ hgrows hconnects.keepsIds
    ((hconnects.children p name (.inl hpq)).trans hloaded)
  have hownsQ : g.Owns q name r qid e :=
    { made := hgrows.model q hq
      resolve := by
        rw [hconnects.registry, hconnects.modelType q]
        exact hresolveQ
      keeps := by
        rw [hconnects.modelType q, htype]
        exact ⟨declared, hdeclared, hcascades⟩
      id := hconnects.keepsIds.id q qid hqid
      loaded := hconnects.loaded }
  have hfiledQ : g.FiledUnder e m (g₁.model m).key :=
    { member := hconnects.member
      snapshot := fun key hkey => by
        obtain ⟨hslot, hbefore⟩ := hconnects.snapshot _ (OrderedMap.get?_eq_some_iff.mp hkey)
        exact hfiled e key hslot (OrderedMap.get?_eq_some_iff.mpr hbefore) }
  have hremovedG : m ∉ (g.collection c).members.values := by
    rwa [hconnects.collection c hce]
  have hatG := hconnects.keepsIds.isStoredAs hat
  have hother : g.Placed m c pid qid (g₁.model m).key := .other hremovedG hids
  have hown : g.Placed m e qid qid (g₁.model m).key := .own hfiledQ rfl
  rcases horder with horder | horder
  · obtain ⟨rfl, rfl⟩ := Prod.mk.inj horder
    refine hownsP.save_both hownsQ hce.symm hg hside hplain hsingle hblank hatG hbelongs hother
      hown (.inr rfl) (fun _ => hpm) hsaves fun d hd => ?_
    rcases hd with rfl | rfl
    · exact hapart first (by simp) d hownsP.loaded
    · exact hapart second (by simp) d hownsQ.loaded
  · obtain ⟨rfl, rfl⟩ := Prod.mk.inj horder
    refine hownsQ.save_both hownsP hce hg hside hplain hsingle hblank hatG hbelongs hown hother
      (.inl rfl) (fun hid => absurd hid hids) hsaves fun d hd => ?_
    rcases hd with rfl | rfl
    · exact hapart first (by simp) d hownsQ.loaded
    · exact hapart second (by simp) d hownsP.loaded

namespace Library

/-- The graph with another author, after the article of the first one was removed from its
collection. -/
def freed : Graph MemoryStore := (Model.forgeById session "author" "bob" cleared).2

/-- The graph after the article was put to the articles of the other author. -/
def acquired : Graph MemoryStore := (Model.put ⟨2⟩ "articles" ⟨1⟩ freed).2

theorem reachable_freed : Graph.Reachable MemoryStore.Filed freed :=
  .call reachable_cleared (.forgeById _ _ _)

/-- What the relationship to the articles amounts to. -/
def listing : Resolved :=
  (freed.registry.resolve (freed.model ⟨0⟩).modelType.name "articles").toOption.getD default

/-- Saves the articles of two authors, one after the other. -/
def saveBoth (first second : Model) : Action MemoryStore Unit := do
  (Related.model first).save (some ["articles"])
  (Related.model second).save (some ["articles"])

/-- The article has nothing loaded but its author. -/
theorem freed_keyedBy (k : ForeignKey) : freed.KeyedBy ⟨1⟩ k (some "author") where
  parent name r _ _ _ hne := by
    have hentries : (freed.model ⟨1⟩).parents.entries = [("author", ⟨0⟩)] := by
      decide +kernel
    cases hloaded : (freed.model ⟨1⟩).parents.get? name with
    | none => rfl
    | some p =>
        have hentry := OrderedMap.get?_eq_some_iff.mp hloaded
        rw [hentries, List.mem_singleton, Prod.mk.injEq] at hentry
        exact absurd (congrArg some hentry.1.symm) hne
  children name r _ _ _ _ := by
    have hentries : (freed.model ⟨1⟩).children.entries = [] := by
      decide +kernel
    cases hloaded : (freed.model ⟨1⟩).children.get? name with
    | none => rfl
    | some e =>
        have hentry := OrderedMap.get?_eq_some_iff.mp hloaded
        rw [hentries] at hentry
        cases hentry

/-- The article is the only model in the collections of the two authors. -/
theorem acquired_only {owner : Model} (howner : owner ∈ [⟨0⟩, (⟨2⟩ : Model)]) {e : Collection}
    (hloaded : (acquired.model owner).children.get? "articles" = some e) {n : Model}
    (hn : n ∈ (acquired.collection e).members.values ++ (acquired.collection e).snapshot.values) :
    n = ⟨1⟩ := by
  have hall : ∀ owner ∈ [⟨0⟩, (⟨2⟩ : Model)],
      ((acquired.model owner).children.get? "articles").all fun e =>
        ((acquired.collection e).members.values ++
          (acquired.collection e).snapshot.values).all fun n => n = ⟨1⟩ := by
    decide +kernel
  have howned := hall owner howner
  rw [hloaded] at howned
  simpa using List.all_eq_true.mp howned n hn

/-- The article moves, whichever author is saved first. -/
theorem acquired_moves :
    (∃ record, (saveBoth ⟨0⟩ ⟨2⟩ acquired).2.stored "node" "cells" = some record ∧
      record.referenceIds "writer" "target_id" = ["bob"]) ∧
    ∃ record, (saveBoth ⟨2⟩ ⟨0⟩ acquired).2.stored "node" "cells" = some record ∧
      record.referenceIds "writer" "target_id" = ["bob"] := by
  have hsound := reachable_freed.sound MemoryStore.keeps_filed
  have hput : Returns (Model.put ⟨2⟩ "articles" ⟨1⟩) freed () acquired :=
    returns_of_isOk (by decide +kernel) ()
  have hresolve : freed.registry.resolve (freed.model ⟨0⟩).modelType.name "articles" =
      .ok listing := eq_ok_of_isOk (by decide +kernel) default
  have hdeclared := eq_ok_of_isOk (x := (freed.model ⟨0⟩).modelType.relationship "articles")
    (by decide +kernel) default
  have hkey : listing.foreignKey = ⟨"writer", "target_id"⟩ := by
    decide +kernel
  have hback : listing.inverseOn? (freed.model ⟨1⟩).modelType.name = some "author" := by
    decide +kernel
  have hpid : (freed.model ⟨0⟩).record.id = some "ann" := by
    decide +kernel
  have hqid : (freed.model ⟨2⟩).record.id = some "bob" := by
    decide +kernel
  have hnone : (freed.model ⟨2⟩).children.get? "articles" = none := by
    decide +kernel
  have hmoved : ∀ first second : Model,
      (first, second) = ((⟨0⟩ : Model), (⟨2⟩ : Model)) ∨ (first, second) = (⟨2⟩, ⟨0⟩) →
      Returns (saveBoth first second) acquired () (saveBoth first second acquired).2 →
      ∃ record, (saveBoth first second acquired).2.stored "node" "cells" = some record ∧
        record.referenceIds "writer" "target_id" = ["bob"] := by
    intro first second horder hsaves
    have hrecord := save_moves (c := ⟨0⟩) hsound.wellFormed (by decide +kernel)
      (by decide +kernel) (by decide +kernel) (by decide +kernel) hresolve hdeclared
      (by decide +kernel) (by decide +kernel) (by decide +kernel) (by decide +kernel) hpid hqid
      (by decide) (by decide) (by decide +kernel : freed.IsStoredAs ⟨1⟩ "node" "cells")
      (by decide) (by decide +kernel) (by decide +kernel) (by simp [hnone])
      (fun e key hloaded => by simp [hnone] at hloaded) (by rw [hback]; exact freed_keyedBy _)
      hput horder hsaves
      (fun owner howner e hloaded n hn hne => absurd (acquired_only howner hloaded hn) hne)
    rwa [hkey] at hrecord
  exact ⟨hmoved _ _ (.inl rfl) (returns_of_isOk (by decide +kernel) ()),
    hmoved _ _ (.inr rfl) (returns_of_isOk (by decide +kernel) ())⟩

/-- An author with whom the articles go. -/
def possessive : ModelType := (ModelType.new "author" "node" "author").declare
  ((Relationship.referenced "articles" "article" "author").cascading true)

/-- The graph in which the only article of such an author was fetched and removed from the
collection, and then put to another author. -/
def parted : Graph MemoryStore :=
  let g := (Model.forgeById session "author" "ann" (opened [possessive, article])).2
  let g := ((Related.model ⟨0⟩).fetch ["articles"] none g).2
  let g := (Collection.remove ⟨0⟩ "cells" g).2
  let g := (Model.forgeById session "author" "bob" g).2
  (Model.put ⟨2⟩ "articles" ⟨1⟩ g).2

/-- The graph after the new author was saved first, and then the old one. -/
def bereft : Graph MemoryStore := (saveBoth ⟨2⟩ ⟨0⟩ parted).2

/-- A cascading relationship destroys what was moved: the article is a member of the new
author's collection, was stored with the new author, and is deleted with the old one's removed
models. -/
theorem bereft_not_moved :
    Returns (saveBoth ⟨2⟩ ⟨0⟩) parted () bereft ∧
      (parted.model ⟨0⟩).record.id = some "ann" ∧ (parted.model ⟨2⟩).record.id = some "bob" ∧
      (∃ c, (parted.model ⟨2⟩).children.get? "articles" = some c ∧
        (parted.collection c).members.values = [⟨1⟩]) ∧
      parted.IsStoredAs ⟨1⟩ "node" "cells" ∧
      (parted.model ⟨1⟩).parents.get? "author" = some ⟨2⟩ ∧
      bereft.stored "node" "cells" = none ∧ bereft.store.deleted = [("node", "cells")] :=
  ⟨returns_of_isOk (by decide +kernel) (), by decide +kernel, by decide +kernel,
    ⟨⟨1⟩, by decide +kernel, by decide +kernel⟩, by decide +kernel, by decide +kernel,
    by decide +kernel, by decide +kernel⟩

end Library

end RecordGraph
