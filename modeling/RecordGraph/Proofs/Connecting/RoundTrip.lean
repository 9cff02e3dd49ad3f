/-
# Put, save, fetch

Putting a model into a relationship, saving the model that holds the foreign key and fetching on
fresh models of the two records is a round trip: the relationship leads to the far model again,
and so does the way back to the near one. What was loaded before and what the key held before do
not matter, except that a key for several identifiers is fetched as a whole: where one of the
records that it refers to cannot be told the way back, nothing is fetched.
-/
import RecordGraph.Proofs.Connecting.Symmetry
import RecordGraph.Proofs.Saving.Keying

namespace RecordGraph

/-! ## Two stored records -/

namespace Graph

/-- Two models are stored under identifiers, and the key of the first one refers to the second. -/
structure Linked (g : Graph MemoryStore) (m : Model) (near : ModelType) (own : String)
    (k : ForeignKey) (c : Cardinality) (x : Model) (far : ModelType) (id : String) : Prop where
  describes : near.describes (g.model m).record.entityType (g.model m).record.bundle = true
  describesFar : far.describes (g.model x).record.entityType (g.model x).record.bundle = true
  ownId : (g.model m).record.id = some own
  farId : (g.model x).record.id = some id
  stored : g.Stores near own (g.model m).record
  storedFar : ∃ record, g.Stores far id record
  refers : (g.model m).record.RefersBy k c id

variable {g : Graph MemoryStore} {m x : Model} {near far : ModelType} {own id name : String}
  {k : ForeignKey} {c : Cardinality} {r : Resolved}

/-- A single key refers to one record, so only the way back from its type is told. -/
theorem tellsBack_of_single {record : Record} (hchecked : g.registry.Checked)
    (hwf : g.registry.WellFormed) (hlinks : g.registry.Leads near name r far)
    (hstored : g.Stores far id record)
    (hback : ∀ inverse, r.inverseOn? far.name = some inverse →
      ∃ back, g.registry.resolve far.name inverse = .ok back) : g.TellsBack r [id] := by
  intro other asked target hleads hother hid htarget
  rw [List.mem_singleton] at hid
  subst hid
  have hentity : other.entityType = far.entityType :=
    hchecked.entityType_of_farTypes hwf hlinks.resolves hleads hlinks.leads hother
      hlinks.registeredFar
  have hsame : target = record := by
    have hat := htarget.1
    rw [hentity, hstored.1, Option.some.injEq] at hat
    exact hat.symm
  obtain rfl : other = far := hchecked.bundles other (Registry.mem_values_of_get hother) far
    (Registry.mem_values_of_get hlinks.registeredFar) hentity
    (by rw [← htarget.2, ← hstored.2, hsame])
  exact hback

namespace Linked

/-- The record with the key finds the other one. -/
theorem finds_forth (h : g.Linked m near own r.foreignKey r.cardinality x far id)
    (hfiled : g.store.Filed) (hchecked : g.registry.Checked) (hwf : g.registry.WellFormed)
    (hlinks : g.registry.Leads near name r far) (hside : r.side = .parent)
    (hpoint : '.' ∉ name.toList)
    (hback : ∀ inverse, r.inverseOn? far.name = some inverse →
      ∃ back, g.registry.resolve far.name inverse = .ok back)
    (htells : r.cardinality = .multiple → g.TellsBack r (g.keyIds r.foreignKey m)) :
    g.Finds (g.model m).record name far.entityType id := by
  obtain ⟨target, htarget⟩ := h.storedFar
  refine finds_parent hfiled hchecked hlinks hside h.describes (by simp [Record.isNew, h.ownId])
    hpoint htarget h.refers ?_
  cases hcardinality : r.cardinality with
  | multiple => exact htells hcardinality
  | single =>
      have hids := h.refers.refers
      rw [hcardinality] at hids
      rw [show (g.model m).record.referenceIds r.foreignKey.field r.foreignKey.column = [id]
        from hids]
      exact tellsBack_of_single hchecked hwf hlinks htarget hback

/-- The other record finds the one with the key. -/
theorem finds_back (h : g.Linked m near own r.foreignKey r.cardinality x far id)
    (hfiled : g.store.Filed) (hchecked : g.registry.Checked)
    (hlinks : g.registry.Leads far name r near) (hside : r.side = .child)
    (hpoint : '.' ∉ name.toList)
    (hback : r.cardinality = .multiple → ∀ inverse, r.inverseOn? near.name = some inverse →
      ∃ back, g.registry.resolve near.name inverse = .ok back) :
    g.Finds (g.model x).record name near.entityType own :=
  finds_child hfiled hchecked hlinks hside h.describesFar h.farId hpoint h.stored h.refers hback

end Linked

/-! ## Saving the model with the key -/

/-- The record of the model is one that its type describes. -/
def Described (g : Graph MemoryStore) (m : Model) : Prop :=
  (g.model m).modelType.describes (g.model m).record.entityType (g.model m).record.bundle = true

instance (g : Graph MemoryStore) (m : Model) : Decidable (g.Described m) :=
  inferInstanceAs (Decidable (_ = true))

/-- After a model was given a key and saved, both records are stored, and the one refers to the
other. -/
theorem Keyed.linked {g₁ g₂ : Graph MemoryStore} {record : Record} (h : g.Keyed g₁ m r x id)
    (hg₁ : g₁.WellFormed) (hm : g₁.HasModel m) (horderly : g₁.Orderly)
    (hresolve : g.registry.resolve (g.model m).modelType.name name = .ok r)
    (hside : r.side = .parent) (hplain : r.foreignKey.Plain)
    (honce : (g.model m).modelType.UsesOnce r.foreignKey.field) (hdescribed : g.Described m)
    (hdescribedFar : g.Described x) (hid : (g.model x).record.id = some id) (hblank : id ≠ "")
    (hstored : g.Stores (g.model x).modelType id record)
    (hsave : Returns m.saveRecord g₁ () g₂) (hown : (g₂.model m).record.id = some own)
    (hapart : (g.model m).modelType.entityType = (g.model x).modelType.entityType → own = id →
      (g.model m).modelType.bundle = (g.model x).modelType.bundle) :
    g₂.registry = g.registry ∧ g₂.Linked m (g.model m).modelType own r.foreignKey r.cardinality x
      (g.model x).modelType id := by
  have hplaces := h.places
  obtain ⟨hstores, hwrites, hbundle, hrefers⟩ := Model.refersBy_of_saveRecord hg₁ hm horderly
    (by rw [hplaces.registry, hplaces.modelType, hresolve]) hside hplain
    (by rw [hplaces.modelType]; exact honce) h.loaded (by rw [hplaces.id, hid]) hblank h.refers
    hsave
  have hplace : ∀ n, (g₂.model n).record.entityType = (g.model n).record.entityType ∧
      (g₂.model n).record.bundle = (g.model n).record.bundle := by
    intro n
    refine ⟨(hstores.keepsIds.entityType n).trans (hplaces.entityType n), ?_⟩
    by_cases hn : n = m
    · rw [hn, hbundle, hplaces.bundle]
    · rw [hwrites.others n hn, hplaces.bundle]
  have hnear : (g.model m).modelType.describes (g₂.model m).record.entityType
      (g₂.model m).record.bundle = true := by
    rw [(hplace m).1, (hplace m).2]
    exact hdescribed
  have hfar : (g.model x).modelType.describes (g₂.model x).record.entityType
      (g₂.model x).record.bundle = true := by
    rw [(hplace x).1, (hplace x).2]
    exact hdescribedFar
  have hentity : (g.model m).modelType.entityType = (g₂.model m).record.entityType ∧
      (g.model m).modelType.bundle = (g₂.model m).record.bundle := by
    simpa [ModelType.describes] using hnear
  have hat : g₂.IsStoredAs m (g.model m).modelType.entityType own := ⟨hentity.1.symm, hown⟩
  refine ⟨hstores.registry.trans hplaces.registry, hnear, hfar, hown,
    hstores.keepsIds.id x id ((hplaces.id x).trans hid), ⟨?_, hentity.2.symm⟩, ?_, hrefers⟩
  · rw [hwrites.stored, if_pos hat]
  · by_cases hover : g₂.IsStoredAs m (g.model x).modelType.entityType id
    · refine ⟨(g₂.model m).record, by rw [hwrites.stored, if_pos hover], ?_⟩
      rw [← hentity.2]
      refine hapart (hentity.1.trans hover.1) (Option.some.inj (hown.symm.trans hover.2))
    · refine ⟨record, ?_, hstored.2⟩
      rw [hwrites.stored, if_neg hover, stored, hplaces.store]
      exact hstored.1

/-! ## There and back -/

/-- The relationship is named by one step, and if it holds a key for several identifiers, whatever
the key of the model refers to can be told the way back. -/
def CanFetch (g : Graph MemoryStore) (m : Model) (name : String) (r : Resolved) : Prop :=
  '.' ∉ name.toList ∧ (r.side = .parent → r.cardinality = .multiple →
    g.TellsBack r (g.keyIds r.foreignKey m))

end Graph

/-- What belongs to the one of two models that holds the foreign key. -/
def Resolved.holder {α : Type} (r : Resolved) (near far : α) : α :=
  match r.side with
  | .parent => near
  | .child => far

/-- What belongs to the other one. -/
def Resolved.keyless {α : Type} (r : Resolved) (near far : α) : α :=
  match r.side with
  | .parent => far
  | .child => near

namespace Graph

/-- One model was put into a relationship of another one, the one without the key being stored, and
the one with the key was saved. They are of the bundles of their types, and the key is in a field
of its own. -/
structure PutAndSaved (g g₁ g₂ : Graph MemoryStore) (a b : Model) (name : String) (r : Resolved)
    (ida idb : String) : Prop where
  made : g.HasModel a
  madeFar : g.HasModel b
  resolves : g.registry.resolve (g.model a).modelType.name name = .ok r
  plain : r.foreignKey.Plain
  once : (g.model (r.holder a b)).modelType.UsesOnce r.foreignKey.field
  described : g.Described a
  describedFar : g.Described b
  storedId : (g.model (r.keyless a b)).record.id = some (r.keyless ida idb)
  notBlank : r.keyless ida idb ≠ ""
  stored : ∃ record, g.Stores (g.model (r.keyless a b)).modelType (r.keyless ida idb) record
  put : Returns (a.put name b) g () g₁
  saved : Returns ((Related.model (r.holder a b)).save none) g₁ () g₂
  savedId : (g₂.model (r.holder a b)).record.id = some (r.holder ida idb)

variable {g g₁ g₂ : Graph MemoryStore} {a b : Model} {name ida idb : String} {r : Resolved}

/-- The far record is found along the relationship, and the near record along the way back. -/
structure FindsBoth (g : Graph MemoryStore) (a b : Model) (near far : ModelType) (name : String)
    (r : Resolved) (ida idb : String) : Prop where
  forth : g.CanFetch a name r → g.Finds (g.model a).record name far.entityType idb
  back : ∀ inverse, r.inverseOn? far.name = some inverse →
    ∃ back, g.registry.resolve far.name inverse = .ok back ∧
      (near.name ∈ back.farTypes → g.CanFetch b inverse back →
        g.Finds (g.model b).record inverse near.entityType ida)

namespace PutAndSaved

/-- Neither call spoils a graph. -/
theorem sound (h : g.PutAndSaved g₁ g₂ a b name r ida idb) (hg : g.Sound MemoryStore.Filed)
    (horderly : g.Orderly) : g₁.Sound MemoryStore.Filed ∧ g.Grows g₁ ∧ g₁.Orderly ∧
      g₂.Sound MemoryStore.Filed := by
  have hput := Model.upholds_put hg h.made h.madeFar name
  obtain ⟨hg₁, hgrows, -⟩ := hput.of_returns h.put
  have hholder : g.HasModel (r.holder a b) := by
    unfold Resolved.holder
    split
    · exact h.made
    · exact h.madeFar
  have hsave := Model.upholds_saveRecord MemoryStore.keeps_filed hg₁ (hgrows.model _ hholder)
  exact ⟨hg₁, hgrows, hput.orderly_of_returns h.put horderly, (hsave.of_returns h.saved).1⟩

/-- From the side with the key. -/
theorem findsBoth_of_parent (h : g.PutAndSaved g₁ g₂ a b name r ida idb)
    (hg : g.Sound MemoryStore.Filed) (hchecked : g.registry.Checked) (horderly : g.Orderly)
    (hside : r.side = .parent)
    (hapart : (g.model a).modelType.entityType = (g.model b).modelType.entityType → ida = idb →
      (g.model a).modelType.bundle = (g.model b).modelType.bundle) :
    g₂.FindsBoth a b (g.model a).modelType (g.model b).modelType name r ida idb := by
  obtain ⟨hg₁, hgrows, horderly₁, hg₂⟩ := h.sound hg horderly
  obtain ⟨made, madeFar, hresolve, hplain, honce, hdescribed, hdescribedFar, hidb, hblank,
    ⟨record, hstored⟩, hput, hsaved, hida⟩ := h
  simp only [Resolved.holder, Resolved.keyless, hside] at honce hsaved hidb hblank hstored hida
  have hmade := hgrows.model a made
  have hwf := hg.wellFormed.registry
  obtain rfl := Registry.name_of_resolve hwf hresolve
  obtain ⟨hleads, hparent, -⟩ := Model.returns_put_sides hresolve hput
  have hcall := hparent hside
  have hkeyed := Model.keyed_of_putParent hplain hidb hblank horderly₁ hcall
  obtain ⟨hregistry, hlinked⟩ := hkeyed.linked hg₁.wellFormed hmade horderly₁ hresolve hside hplain
    honce hdescribed hdescribedFar hidb hblank hstored hsaved hida hapart
  have hback : ∀ inverse, r.inverseOn? (g.model b).modelType.name = some inverse →
      ∃ back, g.registry.resolve (g.model b).modelType.name inverse = .ok back := by
    intro inverse hinverse
    rw [hinverse] at hcall
    obtain ⟨c, hc⟩ := Model.exists_children_of_putParent hcall
    obtain ⟨-, back, hresolves⟩ := horderly₁.children b inverse c hc
    rw [hkeyed.places.registry, hkeyed.places.modelType] at hresolves
    exact ⟨back, hresolves⟩
  have hnear := hg.wellFormed.typed a made
  have hfar := hg.wellFormed.typed b madeFar
  rw [← hregistry] at hchecked hwf hresolve hnear hfar hback
  refine ⟨fun hfetch => hlinked.finds_forth hg₂.store hchecked hwf ⟨hnear, hfar, hresolve, hleads⟩
    hside hfetch.1 hback (hfetch.2 hside), fun inverse hinverse => ?_⟩
  obtain ⟨back, hresolves⟩ := hback inverse hinverse
  obtain ⟨hsideBack, hkey, hcardinality, hfars, htold⟩ :=
    Registry.wayBack_of_parent hwf hresolve hside hinverse hresolves
  refine ⟨back, hresolves, fun hleadsBack hfetch => ?_⟩
  rw [← hkey, ← hcardinality] at hlinked
  refine hlinked.finds_back hg₂.store hchecked ⟨hfar, hnear, hresolves, hleadsBack⟩ hsideBack
    hfetch.1 fun _ other hother => ?_
  rw [htold, Option.some.injEq] at hother
  exact ⟨r, hother ▸ hresolve⟩

/-- From the side without the key. -/
theorem findsBoth_of_child (h : g.PutAndSaved g₁ g₂ a b name r ida idb)
    (hg : g.Sound MemoryStore.Filed) (hchecked : g.registry.Checked) (horderly : g.Orderly)
    (hside : r.side = .child)
    (hapart : (g.model a).modelType.entityType = (g.model b).modelType.entityType → ida = idb →
      (g.model a).modelType.bundle = (g.model b).modelType.bundle) :
    g₂.FindsBoth a b (g.model a).modelType (g.model b).modelType name r ida idb := by
  obtain ⟨hg₁, hgrows, horderly₁, hg₂⟩ := h.sound hg horderly
  obtain ⟨made, madeFar, hresolve, hplain, honce, hdescribed, hdescribedFar, hida, hblank,
    ⟨record, hstored⟩, hput, hsaved, hidb⟩ := h
  simp only [Resolved.holder, Resolved.keyless, hside] at honce hsaved hida hblank hstored hidb
  have hmade := hgrows.model b madeFar
  have hwf := hg.wellFormed.registry
  have hnear := hg.wellFormed.typed a made
  have hfar := hg.wellFormed.typed b madeFar
  obtain ⟨hleads, -, hchild⟩ := Model.returns_put_sides hresolve hput
  have hcall := hchild hside
  obtain ⟨inverse, hinverse⟩ := Registry.exists_inverseOn_of_child hwf hresolve hside hleads
  rw [hinverse] at hcall
  obtain ⟨back, hresolves⟩ :
      ∃ back, g.registry.resolve (g.model b).modelType.name inverse = .ok back := by
    rw [← hgrows.registry, ← hgrows.modelType b madeFar]
    rcases Model.loaded_of_putChild hcall with ⟨-, hparent⟩ | ⟨c, hc⟩
    · exact Model.exists_resolve_of_saveRecord hg₁.wellFormed hmade hparent hsaved
    · exact (horderly₁.children b inverse c hc).2
  obtain ⟨hsideBack, hkey, hcardinality⟩ :=
    Registry.wayBack_of_child hwf hresolve hside hinverse hresolves
  have hholds := Registry.holdsSingle_wayBack hwf hresolve hinverse hresolves
  rw [Resolved.heldSingly_of_child hside] at hholds
  have hkeyed := Model.keyed_of_putChild (Registry.name_of_resolve hwf hresolves) hholds hkey
    hcardinality hplain hida hblank hcall
  rw [← hkey] at hplain honce
  obtain ⟨hregistry, hlinked⟩ := hkeyed.linked hg₁.wellFormed hmade horderly₁ hresolves hsideBack
    hplain honce hdescribedFar hdescribed hida hblank hstored hsaved hidb
    fun hentity hid => (hapart hentity.symm hid.symm).symm
  rw [← hregistry] at hchecked hwf hresolve hresolves hnear hfar
  constructor
  · rintro ⟨hpoint, -⟩
    rw [hkey, hcardinality] at hlinked
    refine hlinked.finds_back hg₂.store hchecked ⟨hnear, hfar, hresolve, hleads⟩ hside hpoint
      fun _ other hother => ?_
    rw [hinverse, Option.some.injEq] at hother
    exact ⟨back, hother ▸ hresolves⟩
  · intro other hother
    obtain rfl : inverse = other := Option.some.inj (hinverse.symm.trans hother)
    refine ⟨back, hresolves, fun hleadsBack hfetch => ?_⟩
    refine hlinked.finds_forth hg₂.store hchecked hwf ⟨hfar, hnear, hresolves, hleadsBack⟩ hsideBack
      hfetch.1 (fun there hthere => ?_) (hfetch.2 hsideBack)
    obtain ⟨declared, hdeclared, -⟩ :=
      Registry.declared_wayBack_of_parent hwf hnear hresolves hsideBack hthere
    exact Registry.exists_resolve_of_declared hwf hresolve hnear hdeclared

end PutAndSaved

/-- Putting, saving and fetching is a round trip, unless the two are one stored record under two
types. -/
theorem PutAndSaved.findsBoth {types : List ModelType}
    (hbuild : Registry.build types = .ok g.registry) (hreach : Reachable MemoryStore.Filed g)
    (h : g.PutAndSaved g₁ g₂ a b name r ida idb)
    (hapart : (g.model a).modelType.entityType = (g.model b).modelType.entityType → ida = idb →
      (g.model a).modelType.bundle = (g.model b).modelType.bundle) :
    g₂.FindsBoth a b (g.model a).modelType (g.model b).modelType name r ida idb := by
  have hchecked := Registry.checked_of_build hbuild
  have hg := hreach.sound MemoryStore.keeps_filed
  have horderly := hreach.orderly MemoryStore.keeps_filed
  cases hside : r.side with
  | parent => exact h.findsBoth_of_parent hg hchecked horderly hside hapart
  | child => exact h.findsBoth_of_child hg hchecked horderly hside hapart

end Graph

namespace Library

/-- The graph after the article of the first author was put to the second one. -/
def passed : Graph MemoryStore := (Model.put ⟨1⟩ "articles" ⟨2⟩ unwired).2

/-- The graph after the article was saved. -/
def passedOn : Graph MemoryStore := (Model.saveRecord ⟨2⟩ passed).2

theorem putAndSaved_passedOn : unwired.PutAndSaved passed passedOn ⟨1⟩ ⟨2⟩ "articles"
    (resolvedOf unwired ⟨1⟩ "articles") "bob" "cells" where
  made := by decide +kernel
  madeFar := by decide +kernel
  resolves := eq_ok_of_isOk (by decide +kernel) default
  plain := by decide +kernel
  once := by decide +kernel
  described := by decide +kernel
  describedFar := by decide +kernel
  storedId := by decide +kernel
  notBlank := by decide +kernel
  stored := Graph.exists_stores_iff.mpr (by decide +kernel)
  put := returns_of_isOk (by decide +kernel) ()
  saved := returns_of_isOk (by decide +kernel) ()
  savedId := by decide +kernel

/-- The second author finds the article now, and the article this author. -/
theorem passedOn_findsBoth :
    unwired.PutAndSaved passed passedOn ⟨1⟩ ⟨2⟩ "articles" (resolvedOf unwired ⟨1⟩ "articles")
      "bob" "cells" ∧
    passedOn.Finds (passedOn.model ⟨1⟩).record "articles" "node" "cells" ∧
    passedOn.Finds (passedOn.model ⟨2⟩).record "author" "node" "bob" := by
  have hbuild : Registry.build [author, article] = .ok unwired.registry := rfl
  have hfinds := Graph.PutAndSaved.findsBoth hbuild reachable_unwired putAndSaved_passedOn
    (by decide +kernel)
  have hside : (resolvedOf unwired ⟨1⟩ "articles").side = .child := by
    decide +kernel
  refine ⟨putAndSaved_passedOn, ?_, ?_⟩
  · exact hfinds.forth ⟨by decide, fun hparent => absurd (hside.symm.trans hparent) (by simp)⟩
  · obtain ⟨back, hresolves, hback⟩ := hfinds.back "author" (by decide +kernel)
    have hauthor := eq_ok_of_isOk (x := passedOn.registry.resolve
      (unwired.model ⟨2⟩).modelType.name "author") (by decide +kernel) default
    have hsame := Except.ok.inj (hresolves.symm.trans hauthor)
    have hsingle : back.cardinality = .single := by
      rw [hsame]
      decide +kernel
    refine hback ?_ ⟨by decide, fun _ hmultiple => absurd (hsingle.symm.trans hmultiple) (by simp)⟩
    rw [hsame]
    decide +kernel

/-- Articles that refer to any number of authors and other articles. They are also translations,
under a name of two steps, and have an editor. -/
def citing : ModelType :=
  ((((ModelType.new "article" "node" "article").declare
    ((Relationship.polymorphicField "sources" "writer" ["author", "article"]).withCardinality
      .multiple)).declare (.referenced "citations" "article" "sources")).declare
    (.field "translation.of" "original" "article")).declare (.field "editor" "edited" "author")

/-- Authors with a relationship whose counterpart nobody declares. -/
def critic : ModelType :=
  ((ModelType.new "author" "node" "author").declare
    (.referenced "articles" "article" "sources")).declare
    (.referenced "reviews" "article" "reviewed")

/-- The graph with two articles forged, of which the first one refers to its author, with this
author, and with an article that goes by the identifier of the author. -/
def cited : Graph MemoryStore :=
  let g := (Model.forgeById session "article" "cells" (opened [critic, citing])).2
  let g := (Model.forgeById session "article" "trees" g).2
  let g := (Model.forgeById session "author" "ann" g).2
  (Model.forgeRecord session ((Record.new "node" "article").withId "ann") g).2

theorem reachable_cited : Graph.Reachable MemoryStore.Filed cited := by
  have hnew : ∀ name, (ModelType.new name "node" name).WellFormed := fun _ =>
    ModelType.wellFormed_new _ _ _
  have htypes : ∀ t ∈ [critic, citing], t.WellFormed := by
    simp [critic, citing, ((hnew _).declare _).declare,
      ((((hnew _).declare _).declare _).declare _).declare]
  exact .call (.call (.call (.call (reachable_opened htypes) (.forgeById _ _ _))
    (.forgeById _ _ _)) (.forgeById _ _ _)) (.forgeRecord _ _)

/-- What is put where. -/
def citations : List Link :=
  [⟨⟨0⟩, "translation.of", ⟨1⟩⟩, ⟨⟨0⟩, "sources", ⟨1⟩⟩, ⟨⟨3⟩, "editor", ⟨2⟩⟩]

/-- The graph after one of these calls. -/
def citedBy (l : Link) : Graph MemoryStore := (l.put cited).2

/-- The graph after the model that refers to the other one was saved then. -/
def citedAgain (l : Link) : Graph MemoryStore := (l.model.saveRecord (citedBy l)).2

/-- The identifier of a model, if it has one. -/
def idOf (m : Model) : String := (cited.model m).record.id.getD ""

theorem putAndSaved_citedAgain {l : Link} (hl : l ∈ citations) :
    cited.PutAndSaved (citedBy l) (citedAgain l) l.model l.far l.name
      (resolvedOf cited l.model l.name) (idOf l.model) (idOf l.far) := by
  have hside : (resolvedOf cited l.model l.name).side = .parent := by
    revert l
    decide +kernel
  have hsaved : Returns l.model.saveRecord (citedBy l) () (citedAgain l) := by
    refine returns_of_isOk ?_ ()
    revert l
    decide +kernel
  refine ⟨?_, ?_, eq_ok_of_isOk ?_ default, ?_, ?_, ?_, ?_, ?_, ?_,
    Graph.exists_stores_iff.mpr ?_, returns_of_isOk ?_ (), ?saved, ?_⟩
  case saved =>
    rw [Resolved.holder.eq_def, hside]
    exact hsaved
  all_goals
    clear hsaved hside
    revert l
    decide +kernel

/-- Fetches a relationship for a fresh model of a record. -/
def refetch (record : Record) (name : String) : Action MemoryStore Related := do
  let m ← Model.forgeRecord session record
  (Related.model m).fetch (pathSteps name) none

/-- A relationship named by two steps cannot be fetched, as its name is read as a path. Nor can one
that refers to an author from before, since the relationships of authors do not resolve. And an
article that is stored in the place of its editor does not find the editor any more. -/
theorem citedAgain_not_finds : Registry.build [critic, citing] = .ok cited.registry ∧
    Graph.Reachable MemoryStore.Filed cited ∧
    ∀ l ∈ citations,
      cited.PutAndSaved (citedBy l) (citedAgain l) l.model l.far l.name
        (resolvedOf cited l.model l.name) (idOf l.model) (idOf l.far) ∧
      ∀ related g' x, Returns (refetch ((citedAgain l).model l.model).record l.name) (citedAgain l)
        related g' → related.Holds g' x → ¬ g'.IsStoredAs x "node" (idOf l.far) := by
  have hnone : ∀ l ∈ citations, (refetch ((citedAgain l).model l.model).record l.name
      (citedAgain l)).1.toOption.all (· = .none) := by
    decide +kernel
  refine ⟨rfl, reachable_cited, fun l hl => ⟨putAndSaved_citedAgain hl, ?_⟩⟩
  intro related g' x hrun hholds
  have hequal : refetch _ _ _ = (.ok related, g') := hrun
  have hlast := hnone l hl
  rw [hequal] at hlast
  obtain rfl : related = .none := by simpa [Except.toOption] using hlast
  cases hholds

end Library

end RecordGraph
