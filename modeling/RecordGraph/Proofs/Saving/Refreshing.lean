/-
# Saving what was only fetched

A stored record is forged, relationships of the model are fetched, and the model is saved. Nobody
has edited anything, yet saving writes the key of every loaded relationship anew. The fetches have
loaded what the keys refer to, and nothing else, so the identifiers that are written are those
that were there. What may change is their spelling: a save writes texts, without other columns, a
single key as one item and any other as a list. A record whose keys are spelled that way is stored
as it was.

A single key that refers to several records is written with one of them, the one that was loaded
last; nothing is said of it here.
-/
import RecordGraph.Proofs.Deleting.Cascades
import RecordGraph.Proofs.Deleting.Fetches
import RecordGraph.Proofs.Fetching.Citing
import RecordGraph.Proofs.Saving.References

namespace RecordGraph

variable {σ : Type}

/-! ## The spelling of a key -/

/-- The field of a foreign key as it is written with these identifiers. -/
def ForeignKey.written? (k : ForeignKey) (c : Cardinality) (ids : List String) : Option Value :=
  let item (id : String) : Value := .object [(k.column, .text id)]
  match ids, c with
  | [], _ => none
  | id :: _, .single => some (item id)
  | ids, .multiple => some (.list (ids.map item))

theorem Record.get?_setReferenceIds (r : Record) (k : ForeignKey) (ids : List String)
    (c : Cardinality) :
    (r.setReferenceIds k.field k.column ids c).get? k.field = k.written? c ids := by
  unfold setReferenceIds ForeignKey.written?
  split
  · simp
  · simp
  · simp

/-- The key of the relationship is spelled in the record as a save spells it. -/
def Resolved.WrittenIn (r : Resolved) (record : Record) : Prop :=
  r.foreignKey.Plain ∧ record.get? r.foreignKey.field = r.foreignKey.written? r.cardinality
    (record.referenceIds r.foreignKey.field r.foreignKey.column)

/-- A single key that is spelled as a save spells it holds one identifier at most. -/
theorem Resolved.WrittenIn.length_le_one {r : Resolved} {record : Record}
    (h : r.WrittenIn record) (hsingle : r.cardinality = .single) :
    (record.referenceIds r.foreignKey.field r.foreignKey.column).length ≤ 1 := by
  obtain ⟨hplain, hfield⟩ := h
  rw [← Record.get?_setReferenceIds record] at hfield
  rw [← Record.referenceIds_congr hplain hfield.symm,
    Record.referenceIds_setReferenceIds hplain, if_pos rfl, hsingle]
  exact Nat.le_trans (List.length_filter_le _ _) (List.length_take_le _ _)

/-- The key of the relationship holds the same identifiers in both records; its field is the
same, or is spelled as a save spells it. -/
structure Resolved.KeepsKey (r : Resolved) (before after : Record) : Prop where
  ids : after.referenceIds r.foreignKey.field r.foreignKey.column =
    before.referenceIds r.foreignKey.field r.foreignKey.column
  field : after.get? r.foreignKey.field = before.get? r.foreignKey.field ∨
    after.get? r.foreignKey.field = r.foreignKey.written? r.cardinality
      (before.referenceIds r.foreignKey.field r.foreignKey.column)

/-- Writing the identifiers that a key holds keeps the key. -/
theorem Resolved.keepsKey_writeKey {r : Resolved} {before record : Record} {ids : List String}
    (hplain : r.foreignKey.Plain)
    (hids : ids = before.referenceIds r.foreignKey.field r.foreignKey.column)
    (hsingle : r.cardinality = .single → ids.length ≤ 1) :
    r.KeepsKey before (r.writeKey ids record) where
  ids := by
    have hkeeps : r.cardinality.keeps ids = ids := by
      cases hcardinality : r.cardinality with
      | single => exact List.take_of_length_le (hsingle hcardinality)
      | multiple => rfl
    rw [writeKey, Record.referenceIds_setReferenceIds hplain, if_pos rfl, hkeeps, ← hids]
    rw [List.filter_eq_self]
    intro id hid
    rw [hids] at hid
    simpa using Record.ne_blank_of_mem_referenceIds hid
  field := .inr (by rw [writeKey, Record.get?_setReferenceIds, hids])

/-! ## Fetching again and again -/

/-- Fetches relationships of a model one after the other, each with a caller's query or without. -/
def Model.fetchAll [RecordStore σ] (m : Model) (fetches : List (String × Option Query)) :
    Action σ Unit :=
  fetches.forM fun fetch => do
    let _ ← (Related.model m).fetch [fetch.1] fetch.2

namespace Graph

/-- From `g` to `t` nothing was stored and the record of the model was not edited; what the model
has loaded is cited by its keys. -/
structure Unedited (g t : Graph MemoryStore) (m : Model) (names : List String) : Prop where
  sound : t.Sound MemoryStore.Filed
  made : t.HasModel m
  registry : t.registry = g.registry
  modelType : (t.model m).modelType = (g.model m).modelType
  record : (t.model m).record = (g.model m).record
  stored : t.store.records = g.store.records
  browsed : t.Browsed m names

variable {g t t' : Graph MemoryStore} {s : Session} {m : Model} {names : List String}

theorem Fresh.unedited (hg : g.Sound MemoryStore.Filed) (h : g.Fresh s m) :
    g.Unedited g m [] :=
  ⟨hg, h.made, rfl, rfl, rfl, rfl, h.browsed⟩

/-- A fetch edits nothing. -/
theorem Unedited.fetch {name : String} {callers : Option Query} {related : Related}
    (h : g.Unedited t m names)
    (hrun : Returns ((Related.model m).fetch [name] callers) t related t') :
    g.Unedited t' m (name :: names) := by
  obtain ⟨hsound, hgrows, -⟩ := (Related.upholds_fetch MemoryStore.keeps_filed h.sound
    (r := .model m) h.made [name] callers).of_returns hrun
  obtain ⟨hframes, -⟩ := (Related.framed_fetch MemoryStore.covers_same (Nat.le_refl _)
    (.model m) [name] callers).of_returns hrun
  refine ⟨hsound, hgrows.model m h.made, hgrows.registry.trans h.registry,
    (hgrows.modelType m h.made).trans h.modelType, (hframes.record m h.made).trans h.record,
    hframes.store.1.trans h.stored, ?_⟩
  -- the relationship is fetched, and then it is read
  obtain ⟨_, _, hget, hstep⟩ := returns_bind.mp hrun
  obtain ⟨rfl, rfl⟩ := returns_pure.mp hget
  obtain ⟨d, _, hdata, hstep⟩ := returns_bind.mp hstep
  obtain ⟨rfl, rfl⟩ := Model.returns_data.mp hdata
  obtain ⟨⟨⟩, fetched, hfetch, hread⟩ := returns_bind.mp hstep
  obtain ⟨hspares, hbrowsed⟩ := h.browsed.fetch h.sound.wellFormed h.made hfetch
  obtain ⟨hfetched, -⟩ := (upholds_fetchRelationship MemoryStore.keeps_filed h.sound _
    (by simpa using h.made) name callers).of_returns hfetch
  exact (hbrowsed.read hfetched.wellFormed (hspares.hasModel h.made) hread).mono (by simp)

/-- However often a model is fetched, it is not edited. -/
theorem Unedited.fetchAll {fetches : List (String × Option Query)}
    (hg : g.Sound MemoryStore.Filed) (hfresh : g.Fresh s m)
    (hrun : Returns (m.fetchAll fetches) g () t) : g.Unedited t m (fetches.map Prod.fst) := by
  refine hrun.forM_invariant (fun done t => g.Unedited t m (done.map Prod.fst))
    (hfresh.unedited hg) ?_
  intro done fetch rest t t' _ ht hturn
  obtain ⟨related, _, hfetch, hlast⟩ := returns_bind.mp hturn
  obtain ⟨rfl, -⟩ := returns_pure.mp hlast
  have hnext := ht.fetch hfetch
  exact { hnext with browsed := hnext.browsed.mono (by simp) }

end Graph

/-! ## Keys that are written anew -/

namespace Graph

/-- Saving the model writes the key of the relationship: the model holds the key, and a parent is
loaded if it is a single one. -/
def Stamps (g : Graph σ) (m : Model) (name : String) (r : Resolved) : Prop :=
  g.registry.resolve (g.model m).modelType.name name = .ok r ∧ r.side = .parent ∧
    (r.cardinality = .single → ((g.model m).parents.get? name).isSome)

/-- A save leaves of the fetched record `before` what is found in `after`. It is the same record,
and it differs in keys of fetched relationships at most. A key that is spelled as a save spells it
is the same; any other one holds the same identifiers, unless its field is used for several keys
or it is a single key with several identifiers. -/
structure Refreshes (g : Graph σ) (m : Model) (names : List String) (before after : Record) :
    Prop where
  entityType : after.entityType = before.entityType
  bundle : after.bundle = before.bundle
  field : ∀ field, (∀ name ∈ names, ∀ r, g.Stamps m name r → r.foreignKey.field = field →
    r.WrittenIn before) → after.get? field = before.get? field
  key : ∀ name r, g.registry.resolve (g.model m).modelType.name name = .ok r →
    r.side = .parent → r.foreignKey.Plain → (g.model m).modelType.UsesOnce r.foreignKey.field →
    (r.cardinality = .single →
      (before.referenceIds r.foreignKey.field r.foreignKey.column).length ≤ 1) →
    r.KeepsKey before after

variable {g : Graph σ} {m : Model} {names : List String} {name : String} {r : Resolved}
  {before record : Record} {held ids : List String}

/-- What is loaded calls for identifiers that the key holds: a parent for one of them, and a
collection for all. -/
theorem Browsed.ids_of_pointsAt (h : g.Browsed m names)
    (hresolve : g.registry.resolve (g.model m).modelType.name name = .ok r)
    (hpoints : g.PointsAt m name r held ids) : name ∈ names ∧ g.Stamps m name r ∧
      ((r.cardinality = .single ∧ ∃ id ∈ g.keyIds r.foreignKey m, ids = [id]) ∨
        (r.cardinality = .multiple ∧ (g.keyIds r.foreignKey m ⊆ held → ids = held))) := by
  cases hpoints with
  | @parent p id hsingle hloaded hid =>
      obtain ⟨hname, other, hother, hside, -, own, hown, hstored⟩ := h.parents name p hloaded
      obtain rfl := Except.ok.inj (hresolve.symm.trans hother)
      obtain rfl : id = own := Option.some.inj (hid.symm.trans hstored)
      exact ⟨hname, ⟨hresolve, hside, fun _ => Option.isSome_of_eq_some hloaded⟩,
        .inl ⟨hsingle, id, hown, rfl⟩⟩
  | @children c hmultiple hside hloaded _ =>
      obtain ⟨hname, other, hother, hcites⟩ := h.children name c hloaded
      obtain rfl := Except.ok.inj (hresolve.symm.trans hother)
      obtain ⟨-, hmembers, hsnapshot⟩ := hcites hside
      refine ⟨hname, ⟨hresolve, hside, fun hsingle => ?_⟩, .inr ⟨hmultiple, fun hheld => ?_⟩⟩
      · rw [hmultiple] at hsingle
        cases hsingle
      · have hgone : g.goneIds c = [] := by
          rw [List.eq_nil_iff_forall_not_mem]
          intro id hid
          obtain ⟨x, hx, hnot, -⟩ := mem_goneIds.mp hid
          exact hnot (hsnapshot x hx)
        rw [hgone, List.filter_eq_self.mpr (by simp)]
        apply joinIds_of_subset
        intro id hid
        obtain ⟨x, hx, hown⟩ := mem_memberIds.mp hid
        obtain ⟨other, hother, hstored⟩ := hmembers x hx
        obtain rfl := Option.some.inj (hown.symm.trans hstored)
        exact hheld hother

theorem Refreshes.refl (g : Graph σ) (m : Model) (names : List String) (before : Record) :
    g.Refreshes m names before before :=
  ⟨rfl, rfl, fun _ _ => rfl, fun _ _ _ _ _ _ _ => ⟨rfl, .inl rfl⟩⟩

/-- A key that is written anew is refreshed. -/
theorem Refreshes.writeKey (hg : g.WellFormed) (hm : g.HasModel m) (h : g.Browsed m names)
    (hsofar : g.Refreshes m names (g.model m).record record)
    (hresolve : g.registry.resolve (g.model m).modelType.name name = .ok r)
    (hpoints : g.PointsAt m name r
      (record.referenceIds r.foreignKey.field r.foreignKey.column) ids) :
    g.Refreshes m names (g.model m).record (r.writeKey ids record) := by
  obtain ⟨hname, hstamps, hids⟩ := h.ids_of_pointsAt hresolve hpoints
  -- where the key holds what it held before, the same identifiers are written
  have hsame : (r.cardinality = .single → (g.keyIds r.foreignKey m).length ≤ 1) →
      record.referenceIds r.foreignKey.field r.foreignKey.column = g.keyIds r.foreignKey m →
        ids = g.keyIds r.foreignKey m := by
    intro hlength hheld
    rcases hids with ⟨hsingle, id, hid, rfl⟩ | ⟨-, hids⟩
    · obtain ⟨only, honly⟩ := List.length_eq_one_iff.mp
        (Nat.le_antisymm (hlength hsingle) (List.length_pos_of_mem hid))
      rw [honly, List.mem_singleton] at hid
      rw [honly, hid]
    · rw [← hheld]
      exact hids (by simp [hheld])
  refine ⟨?_, ?_, fun field hwritten => ?_, fun other own hown hside hplain honce hlength => ?_⟩
  · rw [Resolved.entityType_writeKey, hsofar.entityType]
  · rw [Resolved.writeKey, Record.bundle_setReferenceIds, hsofar.bundle]
  · have hbefore := hsofar.field field hwritten
    by_cases hfield : r.foreignKey.field = field
    · have hspelled := hwritten name hname r hstamps hfield
      subst hfield
      rw [Resolved.writeKey, Record.get?_setReferenceIds,
        hsame hspelled.length_le_one (Record.referenceIds_congr hspelled.1 hbefore _)]
      exact hspelled.2.symm
    · rw [Resolved.writeKey, Record.get?_setReferenceIds_of_ne hfield, hbefore]
  · have hbefore := hsofar.key other own hown hside hplain honce hlength
    by_cases hfield : r.foreignKey.field = own.foreignKey.field
    · obtain ⟨rfl, rfl⟩ := Registry.eq_of_usesOnce hg.registry (hg.typed m hm) honce hown hside
        hresolve hstamps.2.1 hfield
      have hwritten := hsame hlength hbefore.ids
      exact Resolved.keepsKey_writeKey hplain hwritten fun hsingle => hwritten ▸ hlength hsingle
    · constructor
      · rw [Resolved.writeKey, Record.referenceIds_setReferenceIds_of_ne hplain hfield,
          hbefore.ids]
      · rw [Resolved.writeKey, Record.get?_setReferenceIds_of_ne hfield]
        exact hbefore.field

/-- The identifier under which a record is stored is none of its fields. -/
theorem Refreshes.withId (h : g.Refreshes m names before record) (id : String) :
    g.Refreshes m names before (record.withId id) where
  entityType := h.entityType
  bundle := h.bundle
  field := h.field
  key name r hresolve hside hplain honce hlength := by
    obtain ⟨hids, hfield⟩ := h.key name r hresolve hside hplain honce hlength
    exact ⟨(Record.referenceIds_withId hplain record id).trans hids, hfield⟩

end Graph

/-! ## Saves that answer -/

namespace Model

variable {g : Graph σ} {m x : Model} {names : List String} {name : String}

/-- What was fetched for the model is stored. -/
theorem isSome_id_of_refersTo (hg : g.WellFormed) (h : g.Browsed m names)
    (hrefers : g.RefersTo m name x) : (g.model x).record.id.isSome := by
  obtain ⟨r, hresolve, hside, hloaded⟩ := hrefers
  obtain rfl := Registry.name_of_resolve hg.registry hresolve
  cases hsingle : r.holdsSingle with
  | true =>
      obtain ⟨-, _, -, -, -, id, -, hstored⟩ :=
        h.parents r.name x ((Graph.hasLoaded_of_single hsingle).mp hloaded)
      rw [hstored]
      rfl
  | false =>
      obtain ⟨c, hc, hx⟩ := (Graph.hasLoaded_of_many hsingle).mp hloaded
      obtain ⟨-, other, hother, hcites⟩ := h.children r.name c hc
      obtain rfl := Except.ok.inj (hresolve.symm.trans hother)
      obtain ⟨id, -, hstored⟩ := (hcites hside).2.1 x hx
      rw [hstored]
      rfl

/-- All keys are brought in line with what was fetched. -/
theorem succeeds_syncForeignKeys (hg : g.WellFormed) (hm : g.HasModel m)
    (h : g.Browsed m names) : Succeeds m.syncForeignKeys g := by
  have hparents : ∀ name p, (g.model m).parents.get? name = some p →
      ∃ r, g.registry.resolve (g.model m).modelType.name name = .ok r ∧ r.side = .parent := by
    intro name p hp
    obtain ⟨-, r, hresolve, hside, -⟩ := h.parents name p hp
    exact ⟨r, hresolve, hside⟩
  have hchildren : ∀ name c, (g.model m).children.get? name = some c →
      ∃ r, g.registry.resolve (g.model m).modelType.name name = .ok r := by
    intro name c hc
    obtain ⟨-, r, hresolve, -⟩ := h.children name c hc
    exact ⟨r, hresolve⟩
  rcases syncForeignKeys_cases hg hm hparents hchildren with
    ⟨record, hrun, -⟩ | ⟨e, t, -, hrefers, hid⟩
  · exact ⟨(), _, hrun⟩
  · have hsome := isSome_id_of_refersTo hg h hrefers
    rw [hid] at hsome
    cases hsome

/-- With the store in memory, a model is saved after any fetches. -/
theorem succeeds_saveRecord {g : Graph MemoryStore} (hg : g.WellFormed) (hm : g.HasModel m)
    (h : g.Browsed m names) : Succeeds m.saveRecord g := by
  refine (succeeds_syncForeignKeys hg hm h).bind fun _ t _ => ?_
  refine (returns_record.mpr ⟨rfl, rfl⟩).succeeds_bind ?_
  obtain ⟨stored, store, hcall⟩ : ∃ stored store,
      RecordStore.save (t.model m).record t.store = (.ok stored, store) := ⟨_, _, rfl⟩
  refine (returns_call.mpr ⟨store, hcall, rfl⟩).succeeds_bind ?_
  exact ⟨(), _, returns_updateRecord.mpr rfl⟩

end Model

/-- Whatever relationships of a stored record are fetched, in any order, and with or without
queries of the caller: if nothing else is done, saving the model answers and refreshes the stored
record, and all other stored records are what they were. -/
theorem save_refreshes_fetched {g t : Graph MemoryStore} {s : Session} {m : Model}
    {fetches : List (String × Option Query)} {entityType id : String} {before : Record}
    (hreach : Graph.Reachable MemoryStore.Filed g) (hfresh : g.Fresh s m)
    (hrecord : (g.model m).record = before) (hstored : g.stored entityType id = some before)
    (hfetch : Returns (m.fetchAll fetches) g () t) :
    ∃ t' after, Returns ((Related.model m).save none) t () t' ∧
      t'.stored entityType id = some after ∧
      after.id = before.id ∧ t.Refreshes m (fetches.map Prod.fst) before after ∧
      ∀ otherType other, ¬ (otherType = entityType ∧ other = id) →
        t'.stored otherType other = g.stored otherType other := by
  subst hrecord
  have hsound := hreach.sound MemoryStore.keeps_filed
  have h : g.Unedited t m (fetches.map Prod.fst) := .fetchAll hsound hfresh hfetch
  obtain ⟨hid, hentity⟩ := hsound.store entityType id _ hstored
  have hwf := h.sound.wellFormed
  obtain ⟨⟨⟩, t', hsave⟩ := Model.succeeds_saveRecord hwf h.made h.browsed
  obtain ⟨hstores, hwrites, record, own, hrefreshed, hsame⟩ := Model.returns_saveRecord_of hwf
    h.made hsave (t.Refreshes m (fetches.map Prod.fst) (t.model m).record) (.refl _ _ _ _)
    fun name r record ids hresolve hpoints hsofar =>
      hsofar.writeKey hwf h.made h.browsed hresolve hpoints
  have hat : t'.IsStoredAs m entityType id :=
    hstores.keepsIds.isStoredAs (by rw [Graph.IsStoredAs, h.record]; exact ⟨hentity, hid⟩)
  refine ⟨t', (t'.model m).record, hsave, ?_, hat.2.trans hid.symm, ?_, ?_⟩
  · rw [hwrites.stored, if_pos hat]
  · rw [hsame, ← h.record]
    exact hrefreshed.withId own
  · intro otherType other hother
    rw [hwrites.stored, if_neg, Graph.stored, Graph.stored, MemoryStore.recordsOf, h.stored]
    · rfl
    · intro hthere
      exact hother ⟨hthere.1.symm.trans hat.1, Option.some.inj (hthere.2.symm.trans hat.2)⟩

namespace Library

/-- The graph with the first article forged. -/
def borrowed : Graph MemoryStore :=
  (Model.forgeById session "article" "cells" (opened [author, article])).2

theorem reachable_borrowed : Graph.Reachable MemoryStore.Filed borrowed :=
  .call (reachable_opened (by simp [wellFormed_author, wellFormed_article])) (.forgeById _ _ _)

/-- The author of the article is fetched twice. -/
def glances : List (String × Option Query) := [("author", none), ("author", none)]

/-- The graph after that. -/
def skimmed : Graph MemoryStore := (Model.fetchAll ⟨0⟩ glances borrowed).2

/-- The article, whose key is spelled as a save spells it, is stored as it was. -/
theorem skimmed_unchanged :
    Returns (Model.fetchAll ⟨0⟩ glances) borrowed () skimmed ∧
    ((skimmed.model ⟨0⟩).parents.get? "author").isSome ∧
    ∃ t' after, Returns ((Related.model ⟨0⟩).save none) skimmed () t' ∧
      t'.stored "node" "cells" = some after ∧ after.id = some "cells" ∧
      ∀ field, after.get? field = (written "cells" "ann").get? field := by
  have hfetch : Returns (Model.fetchAll ⟨0⟩ glances) borrowed () skimmed :=
    returns_of_isOk (by decide +kernel) ()
  have hfresh : borrowed.Fresh session ⟨0⟩ :=
    ⟨by decide +kernel, by decide +kernel, by decide +kernel, rfl, rfl⟩
  have hstored : borrowed.stored "node" "cells" = some (written "cells" "ann") := rfl
  obtain ⟨t', after, hsave, hafter, hid, hrefreshed, -⟩ :=
    save_refreshes_fetched reachable_borrowed hfresh rfl hstored hfetch
  refine ⟨hfetch, by decide +kernel, t', after, hsave, hafter, hid, fun field => ?_⟩
  refine hrefreshed.field field fun name hname r hstamps _ => ?_
  obtain rfl : name = "author" := by simpa [glances] using hname
  have hauthor := eq_ok_of_isOk (x := skimmed.registry.resolve
    (skimmed.model ⟨0⟩).modelType.name "author") (by decide +kernel) default
  obtain ⟨hkey, hsingle⟩ : r.foreignKey = ⟨"writer", "target_id"⟩ ∧ r.cardinality = .single := by
    rw [Except.ok.inj (hstamps.1.symm.trans hauthor)]
    decide +kernel
  have hids : (borrowed.model ⟨0⟩).record.referenceIds "writer" "target_id" = ["ann"] := by
    decide +kernel
  unfold Resolved.WrittenIn
  rw [hkey, hsingle, hids]
  exact ⟨by decide, rfl⟩

/-- An article that refers to its author by a number. -/
def counted : Record :=
  ((Record.new "node" "article").withId "cells").set "writer" (.object [("target_id", .int 7)])

/-- The article with its author. -/
def countedStore : MemoryStore :=
  [(Record.new "node" "author").withId "7", counted].foldl (fun s r => (s.seed r).2)
    MemoryStore.empty

theorem filed_countedStore : countedStore.Filed := (MemoryStore.filed_empty.seed _).seed _

/-- The graph with this article forged. -/
def borrowedCounted : Graph MemoryStore :=
  (Model.forgeById session "article" "cells" (Session.start ⟨"PLH", .and, some 1, false⟩
    (Graph.new countedStore (registry [author, article]))).2).2

theorem reachable_borrowedCounted : Graph.Reachable MemoryStore.Filed borrowedCounted :=
  .call (.call (.new filed_countedStore
    (wellFormed_registry (by simp [wellFormed_author, wellFormed_article]))) (.start _))
    (.forgeById _ _ _)

/-- The graph after its author was fetched. -/
def skimmedCounted : Graph MemoryStore := (Model.fetchAll ⟨0⟩ glances borrowedCounted).2

/-- The graph after it was saved then. -/
def keptCounted : Graph MemoryStore := ((Related.model ⟨0⟩).save none skimmedCounted).2

/-- Nothing but fetches and a save, and the number has become a text. -/
theorem counted_not_unchanged :
    Graph.Reachable MemoryStore.Filed borrowedCounted ∧ borrowedCounted.Fresh session ⟨0⟩ ∧
      (borrowedCounted.model ⟨0⟩).record = counted ∧
      borrowedCounted.stored "node" "cells" = some counted ∧
      Returns (Model.fetchAll ⟨0⟩ glances) borrowedCounted () skimmedCounted ∧
      Returns ((Related.model ⟨0⟩).save none) skimmedCounted () keptCounted ∧
      keptCounted.stored "node" "cells" ≠ borrowedCounted.stored "node" "cells" := by
  refine ⟨reachable_borrowedCounted,
    ⟨by decide +kernel, by decide +kernel, by decide +kernel, rfl, rfl⟩, rfl, rfl,
    returns_of_isOk (by decide +kernel) (), returns_of_isOk (by decide +kernel) (), ?_⟩
  intro hsame
  have hvalue : ((keptCounted.stored "node" "cells").bind (·.get? "writer")).any
      (·.same (.object [("target_id", .text "7")])) = true := by
    decide +kernel
  rw [hsame] at hvalue
  exact absurd hvalue (by decide +kernel)

end Library

end RecordGraph
