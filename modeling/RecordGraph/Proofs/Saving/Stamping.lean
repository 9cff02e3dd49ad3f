/-
# Stamping the members

Saving a relationship that far models hold the foreign key of gives every member the identifier
of the owner, and then stores the members. Storing a member writes its foreign keys anew from
what it has loaded itself, so the identifier reaches the store only where nothing that the
member has loaded speaks against it; a member that was put into the collection without the way
back, and has another owner loaded, is stored with that other owner.
-/
import RecordGraph.Proofs.Saving.Children
import RecordGraph.Proofs.Saving.Deletions
import RecordGraph.Proofs.Upholding.Histories

namespace RecordGraph

namespace Graph

variable {σ : Type}

/-- Every loaded relationship of the model that is written to the field of the key leaves the
identifier in the key: a parent is stored under it, a collection has a member that is, or at
least has lost no model that is or could be stored under it. -/
structure KeepsReference (g : Graph σ) (m : Model) (k : ForeignKey) (c : Cardinality)
    (id : String) : Prop where
  parent : ∀ name r p, g.registry.resolve (g.model m).modelType.name name = .ok r →
    r.foreignKey.field = k.field → r.cardinality = .single →
    (g.model m).parents.get? name = some p → r.foreignKey = k ∧ (g.model p).record.id = some id
  children : ∀ name r e, g.registry.resolve (g.model m).modelType.name name = .ok r →
    r.foreignKey.field = k.field → r.cardinality = .multiple → r.side = .parent →
    (g.model m).children.get? name = some e → r.foreignKey = k ∧ c = .multiple ∧
      (id ∈ g.memberIds e ∨
        ∀ x ∈ (g.collection e).snapshot.values, x ∉ (g.collection e).members.values →
          ∃ other, (g.model x).record.id = some other ∧ other ≠ id)

theorem OnlyStores.mem_memberIds {g t : Graph MemoryStore} (h : g.OnlyStores t) {c : Collection}
    {id : String} (hid : id ∈ g.memberIds c) : id ∈ t.memberIds c := by
  obtain ⟨x, hx, hown⟩ := Graph.mem_memberIds.mp hid
  refine Graph.mem_memberIds.mpr ⟨x, ?_, h.keepsIds.id x id hown⟩
  rw [h.collection]
  exact hx

/-- What leaves the identifier in the key goes on to do so while models are stored. -/
theorem KeepsReference.syncKeeps {g t : Graph MemoryStore} {m : Model} {k : ForeignKey}
    {c : Cardinality} {id : String} (h : g.KeepsReference m k c id) (hblank : id ≠ "")
    (ht : g.OnlyStores t) : t.SyncKeeps m k (c.RefersTo id) := by
  intro name r held ids hresolve hfield hpoints hheld
  rw [ht.registry, ht.modelType m] at hresolve
  cases hpoints with
  | @parent p own hsingle hloaded hown =>
      rw [ht.parents m] at hloaded
      obtain ⟨rfl, hid⟩ := h.parent name r p hresolve hfield hsingle hloaded
      obtain rfl : id = own := Option.some.inj ((ht.keepsIds.id p id hid).symm.trans hown)
      rw [if_pos rfl, hsingle]
      cases c with
      | single => simp [Cardinality.RefersTo, Cardinality.keeps, hblank]
      | multiple => simp [Cardinality.RefersTo, Cardinality.keeps, hblank]
  | @children e hmultiple hside hloaded hstored =>
      rw [ht.children m] at hloaded
      obtain ⟨rfl, rfl, hleft⟩ := h.children name r e hresolve hfield hmultiple hside hloaded
      rw [if_pos rfl, hmultiple]
      refine List.mem_filter.mpr ⟨mem_joinIds.mpr ?_, by simpa using hblank⟩
      rcases hleft with hmember | hgone
      · exact .inr (ht.mem_memberIds hmember)
      · refine .inl (List.mem_filter.mpr ⟨hheld rfl, ?_⟩)
        have hnot : id ∉ t.goneIds e := by
          intro hid
          obtain ⟨x, hx, hlost, hsame⟩ := mem_goneIds.mp hid
          rw [ht.collection] at hx hlost
          obtain ⟨other, hother, hne⟩ := hgone x hx hlost
          exact hne (Option.some.inj ((ht.keepsIds.id x other hother).symm.trans hsame))
        simpa using hnot

end Graph

namespace Collection

variable {g saved last : Graph MemoryStore} {c : Collection} {r : Resolved} {pid : String}

/-- Storing the members, all of which have been given the identifier. The last one to be stored
under an identifier decides, and the others that are stored there wrap the same record. -/
theorem returns_saveModels_stamped {stamped : Graph MemoryStore} (hg : g.WellFormed)
    (hc : g.HasCollection c) (hplain : r.foreignKey.Plain) (hblank : pid ≠ "")
    (hstamped : g.OnlyStores stamped)
    (hrefers : ∀ n ∈ (g.collection c).members.values,
      r.cardinality.RefersTo pid (stamped.keyIds r.foreignKey n))
    (hsave : Returns c.saveModels stamped () saved) :
    g.OnlyStores saved ∧ ∀ m ∈ (g.collection c).members.values,
      ∃ entityType id, saved.IsStoredAs m entityType id ∧
        ∃ n ∈ (g.collection c).members.values, saved.IsStoredAs n entityType id ∧
          ∃ record, saved.stored entityType id = some record ∧
            (g.KeepsReference n r.foreignKey r.cardinality pid →
              r.cardinality.RefersTo pid
                (record.referenceIds r.foreignKey.field r.foreignKey.column)) := by
  have hkeeps : ∀ n, g.KeepsReference n r.foreignKey r.cardinality pid →
      ∀ t, stamped.OnlyStores t → t.SyncKeeps n r.foreignKey (r.cardinality.RefersTo pid) :=
    fun n hn t ht => hn.syncKeeps hblank (hstamped.trans ht)
  obtain ⟨hstores, -, hids, hwritten⟩ := returns_saveModels (hstamped.wellFormed hg)
    ((hstamped.hasCollection c).mpr hc) hplain hkeeps hsave
  rw [hstamped.collection] at hids hwritten
  refine ⟨hstamped.trans hstores, fun m hm => ?_⟩
  obtain ⟨id, hid⟩ := Option.isSome_iff_exists.mp (hids m hm)
  have hat : saved.IsStoredAs m (saved.model m).record.entityType id := ⟨rfl, hid⟩
  cases hwritten (saved.model m).record.entityType id with
  | before _ hnone => exact absurd hat (hnone m hm)
  | written n hn hatn record hrecord hkept =>
      exact ⟨_, id, hat, n, hn, hatn, record, hrecord, fun hS => hkept hS (hrefers n hn)⟩

end Collection

/-- What saving a relationship leaves of a member in the store. If every member that wraps the
same record leaves the identifier of the owner in the key, and no removed model wraps it, the
record is stored with a key that refers to the owner, a single key to the owner only. Where the
relationship cascades, the record may instead have been deleted along with a removed model. -/
theorem save_stamps_members {g g' : Graph MemoryStore} {p : Model} {name pid : String}
    {r : Resolved} {declared : Relationship} {c : Collection} (hg : g.WellFormed)
    (hp : g.HasModel p)
    (hresolve : g.registry.resolve (g.model p).modelType.name name = .ok r)
    (hdeclared : (g.model p).modelType.relationship name = .ok declared)
    (hside : r.side = .child) (hplain : r.foreignKey.Plain)
    (hid : (g.model p).record.id = some pid) (hblank : pid ≠ "")
    (hloaded : (g.model p).children.get? name = some c)
    (hsave : Returns ((Related.model p).save (some [name])) g () g') :
    ∀ m ∈ (g.collection c).members.values,
      (∀ n ∈ (g.collection c).members.values, g'.SameRecord n m →
        g.KeepsReference n r.foreignKey r.cardinality pid) →
      (∀ n ∈ (g.collection c).removed, ¬ g'.SameRecord n m) →
      ∃ entityType id, g'.IsStoredAs m entityType id ∧
        ((∃ record, g'.stored entityType id = some record ∧ r.cardinality.RefersTo pid
            (record.referenceIds r.foreignKey.field r.foreignKey.column)) ∨
          declared.cascadingDelete = true ∧
            (entityType, id) ∈ g'.store.deleted.drop g.store.deleted.length) := by
  intro m hm hkeeps hapart
  have hc := hg.children p name c hp hloaded
  obtain ⟨stamped, saved, last, relationship, hstamped, -, -, hrefers, hmembers, hrelationship,
    hlast, rfl⟩ := Model.returns_saveChildren hplain hg hc
      (Model.returns_save_children hresolve hside hid hloaded hsave)
  obtain rfl : declared = relationship := Except.ok.inj (hdeclared.symm.trans hrelationship)
  obtain ⟨hsaved, hwritten⟩ := Collection.returns_saveModels_stamped hg hc hplain hblank hstamped
    (hrefers hblank) hmembers
  obtain ⟨entityType, id, hat, n, hn, hatn, record, hrecord, hstampedRecord⟩ := hwritten m hm
  have hmade : ∀ x ∈ (g.collection c).members.values, saved.HasModel x :=
    fun x hx => (hsaved.hasModel x).mpr (hg.member hc hx)
  by_cases hcascades : declared.cascadingDelete = true
  · rw [if_pos hcascades] at hlast
    have hdeletes := (Action.OnlyDeletes.forM Model.onlyDeletes_delete _).of_returns hlast
    have hat' := hdeletes.isStoredAs (hmade m hm) hat
    have hatn' := hdeletes.isStoredAs (hmade n hn) hatn
    have hrefersTo := hstampedRecord (hkeeps n hn (Graph.sameRecord_of_isStoredAs hatn' hat'))
    obtain ⟨more, hmore, hstored⟩ := hdeletes.deleted
    refine ⟨entityType, id, hat', ?_⟩
    rcases hstored entityType id with hsame | ⟨-, hnoted⟩
    · exact .inl ⟨record, hsame.trans hrecord, hrefersTo⟩
    · refine .inr ⟨hcascades, ?_⟩
      change (entityType, id) ∈ last.store.deleted.drop g.store.deleted.length
      rw [hmore, hsaved.deleted, List.drop_left]
      exact hnoted
  · rw [if_neg hcascades] at hlast
    have hgone : ∀ x ∈ saved.removedStored c, x ∈ (g.collection c).removed :=
      fun _ hx => (hsaved.mem_removedStored.mp hx).1
    obtain ⟨hunlinks, -, -, -, -, hwrittenLast⟩ := Model.returns_unlinkAll
      (F := fun _ => True) (P := fun _ => True) (S := fun _ => False) hplain
      (hsaved.wellFormed hg)
      (fun x hx => (hsaved.hasModel x).mpr (hg.removedMember hc (hgone x hx)))
      (fun _ _ hx => hx.elim) (fun _ _ => trivial) (fun _ _ hx => hx.elim) hlast
    have hat' := hunlinks.keepsIds.isStoredAs hat
    have hatn' := hunlinks.keepsIds.isStoredAs hatn
    have hrefersTo := hstampedRecord (hkeeps n hn (Graph.sameRecord_of_isStoredAs hatn' hat'))
    refine ⟨entityType, id, hat', .inl ⟨record, ?_, hrefersTo⟩⟩
    cases hwrittenLast entityType id with
    | before hsame _ => exact hsame.trans hrecord
    | written x hx hatx _ _ _ =>
        exact absurd (Graph.sameRecord_of_isStoredAs hatx hat') (hapart x (hgone x hx))

namespace Library

/-- The articles that the first author has loaded, one unsaved draft. -/
def drafted : Collection := ((authors.model ⟨0⟩).children.get? "articles").getD default

/-- The graph after they were saved. -/
def published : Graph MemoryStore :=
  ((Related.model ⟨0⟩).save (some ["articles"]) authors).2

/-- A draft that was put into the relationship of an author has nothing loaded but this
author. -/
theorem draft_keepsReference :
    authors.KeepsReference ⟨2⟩ articles.foreignKey articles.cardinality "ann" where
  parent name r p hresolve _ _ hloaded := by
    have hentry := OrderedMap.get?_eq_some_iff.mp hloaded
    have hentries : (authors.model ⟨2⟩).parents.entries = [("author", ⟨0⟩)] := by
      decide +kernel
    rw [hentries, List.mem_singleton, Prod.mk.injEq] at hentry
    obtain ⟨rfl, rfl⟩ := hentry
    have hauthor := eq_ok_of_isOk (x := authors.registry.resolve
      (authors.model ⟨2⟩).modelType.name "author") (by decide +kernel) default
    obtain rfl := Except.ok.inj (hresolve.symm.trans hauthor)
    exact ⟨by decide +kernel, by decide +kernel⟩
  children name r e _ _ _ _ hloaded := by
    have hentry := OrderedMap.get?_eq_some_iff.mp hloaded
    have hentries : (authors.model ⟨2⟩).children.entries = [] := by
      decide +kernel
    rw [hentries] at hentry
    cases hentry

/-- The draft is stored, and refers to the author. -/
theorem published_draft : ∃ entityType id, published.IsStoredAs ⟨2⟩ entityType id ∧
    ∃ record, published.stored entityType id = some record ∧
      record.referenceIds "writer" "target_id" = ["ann"] := by
  have hsound := reachable_authors.sound MemoryStore.keeps_filed
  have hdeclared := eq_ok_of_isOk (x := (authors.model ⟨0⟩).modelType.relationship "articles")
    (by decide +kernel) default
  have hmembers : (authors.collection drafted).members.values = [⟨2⟩] := by
    decide +kernel
  have hremoved : (authors.collection drafted).removed = [] := by
    decide +kernel
  have hkeeps : ∀ n ∈ (authors.collection drafted).members.values,
      authors.KeepsReference n articles.foreignKey articles.cardinality "ann" := by
    rw [hmembers]
    rintro n hn
    rw [List.mem_singleton.mp hn]
    exact draft_keepsReference
  have hsave : Returns ((Related.model ⟨0⟩).save (some ["articles"])) authors () published :=
    returns_of_isOk (by decide +kernel) ()
  obtain ⟨entityType, id, hat, hstored⟩ := save_stamps_members hsound.wellFormed
    (by decide +kernel) (eq_ok_of_isOk (by decide +kernel) default) hdeclared (by decide +kernel)
    (by decide +kernel) (by decide +kernel) (by decide) (c := drafted) (by decide +kernel) hsave ⟨2⟩
    (by rw [hmembers]; exact List.mem_singleton_self _) (fun n hn _ => hkeeps n hn)
    (by simp [hremoved])
  refine ⟨entityType, id, hat, ?_⟩
  rcases hstored with hrecord | ⟨hcascades, -⟩
  · exact hrecord
  · exact absurd hcascades (by decide +kernel)

/-- The graph in which a stored article has its author loaded, and is then put into the
collection of another author, but not into the relationship. -/
def lent : Graph MemoryStore :=
  let g := (Model.forgeById session "article" "cells" (opened [author, article])).2
  let g := (fetchRelationship session [⟨0⟩] "author" none g).2
  let g := (Model.forgeById session "author" "bob" g).2
  let g := ((Related.model ⟨2⟩).get ["articles"] g).2
  (Collection.put ⟨1⟩ ⟨0⟩ g).2

/-- The graph after the collection was saved from the other author. -/
def returned : Graph MemoryStore := ((Related.model ⟨2⟩).save (some ["articles"]) lent).2

/-- A member that has another owner loaded is not stamped: the article is saved as one of the
second author, and its record refers to the first one still. -/
theorem returned_not_stamped :
    Returns ((Related.model ⟨2⟩).save (some ["articles"])) lent () returned ∧
      (lent.model ⟨2⟩).record.id = some "bob" ∧
      (∃ c, (lent.model ⟨2⟩).children.get? "articles" = some c ∧
        (lent.collection c).members.values = [⟨0⟩]) ∧
      returned.IsStoredAs ⟨0⟩ "node" "cells" ∧
      (returned.stored "node" "cells").map (·.referenceIds "writer" "target_id") =
        some ["ann"] :=
  ⟨returns_of_isOk (by decide +kernel) (), by decide +kernel,
    ⟨⟨1⟩, by decide +kernel, by decide +kernel⟩, by decide +kernel, by decide +kernel⟩

end Library

end RecordGraph
