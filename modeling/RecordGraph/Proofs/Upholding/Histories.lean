/-
# Histories of a graph

The calls that a caller can make on a graph name objects that were made in it, and types of its
registry. A graph is reachable if it comes from one without objects by such calls, in any order
and whether they answer or fail, while the store may change under it in between. Every
reachable graph is well formed, and what all calls on the store keep is true of its store.
-/
import RecordGraph.Graph.Validating
import RecordGraph.Proofs.BuiltRegistries
import RecordGraph.Proofs.MemoryStores
import RecordGraph.Proofs.Upholding.Storing

namespace RecordGraph

variable {σ α : Type} {Kept : σ → Prop} {g : Graph σ}

/-! ## Validating -/

section Validating

variable [RecordStore σ]

theorem Collection.upholds_validateEach (hg : g.Sound Kept) {c : Collection}
    (hc : g.HasCollection c) {check : Model → Action σ ViolationList}
    (hcheck : ∀ g', g'.Sound Kept → ∀ m, g'.HasModel m →
      Upholds Kept (check m) g' fun _ _ => True) :
    Upholds Kept (c.validateEach check) g fun _ _ => True := by
  refine Upholds.bind_of_reads rfl ?_
  have hturns := Upholds.mapM (l := (g.collection c).members.entries) (q := fun _ _ => True)
    (f := fun (e : String × Model) => do return (← check e.2).under e.1) hg
    (fun _ _ _ _ _ => trivial) fun e he g' hg' hgrows => by
      have hm := hg.wellFormed.members c e.1 e.2 hc (OrderedMap.get?_eq_some_iff.mpr he)
      exact (hcheck g' hg' e.2 (hgrows.model e.2 hm)).bind
        fun _ _ hg'' _ _ => Upholds.pure hg'' trivial
  exact hturns.bind fun _ _ hg' _ _ => Upholds.pure hg' trivial

/-- Validating reads along the path, and so may load empty collections. -/
theorem Model.upholds_validate (path : List String) (hg : g.Sound Kept) {m : Model}
    (hm : g.HasModel m) : Upholds Kept (Model.validate path m) g fun _ _ => True := by
  induction path generalizing g m with
  | nil => exact Upholds.bind_of_reads rfl (Upholds.pure hg trivial)
  | cons name rest ih =>
      refine (Model.upholds_read hg hm name).bind fun r g₁ hg₁ hgrows₁ hr => ?_
      cases r with
      | none => exact Upholds.pure hg₁ trivial
      | model other => exact (ih hg₁ hr).bind fun _ _ hg₂ _ _ => Upholds.pure hg₂ trivial
      | collection c =>
          have heach : ∀ g₂, g₂.Sound Kept → g₁.Grows g₂ → Upholds Kept (do
              let nested ← c.validateEach (Model.validate rest)
              return ViolationList.under nested name) g₂ fun _ _ => True := by
            intro g₂ hg₂ hgrows₂
            exact (Collection.upholds_validateEach hg₂ (hgrows₂.collection c hr)
              fun g₃ hg₃ n hn => ih hg₃ hn).bind fun _ _ hg₃ _ _ => Upholds.pure hg₃ trivial
          simp only
          split
          · exact (Collection.upholds_requireSingleType hg₁ c _).bind
              fun _ g₂ hg₂ hgrows₂ _ => heach g₂ hg₂ hgrows₂
          · exact heach g₁ hg₁ (Graph.Grows.refl g₁)

theorem Related.upholds_validate (hg : g.Sound Kept) {r : Related} (hr : g.HasRelated r)
    (path : List String) : Upholds Kept (r.validate path) g fun _ _ => True := by
  cases r with
  | none => exact Upholds.pure hg trivial
  | model m => exact Model.upholds_validate path hg hr
  | collection c =>
      have heach : ∀ g', g'.Sound Kept → g.Grows g' →
          Upholds Kept (c.validateEach (Model.validate path)) g' fun _ _ => True :=
        fun g' hg' hgrows => Collection.upholds_validateEach hg' (hgrows.collection c hr)
          fun _ hg'' _ hn => Model.upholds_validate path hg'' hn
      unfold Related.validate
      simp only
      split
      · exact (Collection.upholds_requireSingleType hg c _).bind
          fun _ g' hg' hgrows _ => heach g' hg' hgrows
      · exact heach g hg (Graph.Grows.refl g)

end Validating

/-! ## Calls -/

namespace Graph

/-- The calls that a caller can make on a graph. -/
inductive Offers [RecordStore σ] (g : Graph σ) : {α : Type} → Action σ α → Prop where
  | start (config : Config) : g.Offers (Session.start config)
  | close (s : Session) : g.Offers s.close
  | placeholder (s : Session) : g.Offers s.nextPlaceholder
  | policy (s : Session) (p : AccessPolicy) : g.Offers (s.registerPolicy p)
  | execute (s : Session) (q : StoreQuery) : g.Offers (s.execute q)
  | count (s : Session) (q : StoreQuery) : g.Offers (s.count q)
  | aggregate (s : Session) (q : StoreQuery) (a : Aggregation) : g.Offers (s.aggregate q a)
  | models (s : Session) {q : ModelQuery} (hq : q.Registered g.registry) :
      g.Offers (q.fetchModels s)
  | singleModel (s : Session) {q : ModelQuery} (hq : q.Registered g.registry) :
      g.Offers (q.fetchSingleModel s)
  | queried (s : Session) {q : ModelQuery} (hq : q.Registered g.registry) :
      g.Offers (q.fetchCollection s)
  | forgeNew (s : Session) (modelType : String) : g.Offers (Model.forgeNew s modelType)
  | forgeById (s : Session) (modelType id : String) : g.Offers (Model.forgeById s modelType id)
  | forgeRecord (s : Session) (r : Record) : g.Offers (Model.forgeRecord s r)
  | ofType (s : Session) (modelType : String) : g.Offers (Collection.forModelType s modelType)
  | polymorphic (s : Session) (entityType : Option String) :
      g.Offers (Collection.polymorphic s entityType)
  | forgeByIds (s : Session) (modelType : String) (ids : List String) :
      g.Offers (Collection.forgeByIds s modelType ids)
  | setField {m : Model} (hm : g.HasModel m) (field : String) (v : Value) :
      g.Offers (m.setField field v)
  | connect {m far : Model} (hm : g.HasModel m) (hfar : g.HasModel far) (name : String) :
      g.Offers (m.put name far)
  | clear {m : Model} (hm : g.HasModel m) (name : String) : g.Offers (m.clearRelationship name)
  | delete {m : Model} (hm : g.HasModel m) : g.Offers m.delete
  | put {c : Collection} {m : Model} (hc : g.HasCollection c) (hm : g.HasModel m) :
      g.Offers (c.put m)
  | putSnapshot {c : Collection} {m : Model} (hc : g.HasCollection c) (hm : g.HasModel m) :
      g.Offers (c.putSnapshot m)
  | putNew {c : Collection} (hc : g.HasCollection c) : g.Offers c.putNew
  | remove {c : Collection} (hc : g.HasCollection c) (key : String) : g.Offers (c.remove key)
  | removeModel {c : Collection} (hc : g.HasCollection c) (m : Model) :
      g.Offers (c.removeModel m)
  | sort {c : Collection} (hc : g.HasCollection c) (path : String) (direction : SortDirection) :
      g.Offers (c.sortByField path direction)
  | rekey {c : Collection} (hc : g.HasCollection c) (oldKey : String) :
      g.Offers (c.replaceOldKey oldKey)
  | get {r : Related} (hr : g.HasRelated r) (path : List String) : g.Offers (r.get path)
  | fetch {r : Related} (hr : g.HasRelated r) (path : List String) (callers : Option Query) :
      g.Offers (r.fetch path callers)
  | save {r : Related} (hr : g.HasRelated r) (path : Option (List String)) :
      g.Offers (r.save path)
  | validate {r : Related} (hr : g.HasRelated r) (path : List String) :
      g.Offers (r.validate path)

/-- The call closes the session. -/
inductive Closes (s : Session) : {α : Type} → Action σ α → Prop where
  | intro : Closes s s.close

variable [RecordStore σ]

/-- Every call but closing leaves a sound graph that has grown, and lets no session forget a
model, whether it answers or fails. -/
theorem Offers.upholds_or_closes (hkept : RecordStore.Keeps Kept) (hg : g.Sound Kept)
    {x : Action σ α} (h : g.Offers x) :
    Upholds Kept x g (fun _ _ => True) ∨ ∃ s, Closes s x := by
  have hany : ∀ {α : Type} {x : Action σ α} {q : α → Graph σ → Prop}, Upholds Kept x g q →
      Upholds Kept x g (fun _ _ => True) ∨ ∃ s, Closes s x :=
    fun hx => .inl (hx.weaken fun _ _ _ _ => trivial)
  cases h with
  | start config => exact hany (Session.upholds_start hg config)
  | close s => exact .inr ⟨s, .intro⟩
  | placeholder s => exact hany (Session.upholds_nextPlaceholder hg)
  | policy s p => exact hany (Session.upholds_registerPolicy hg p)
  | execute s q => exact hany (Session.upholds_execute hkept hg q)
  | count s q => exact hany (Session.upholds_count hkept hg q)
  | aggregate s q a => exact hany (Session.upholds_aggregate hkept hg q a)
  | models s hq => exact hany (ModelQuery.upholds_fetchModels hkept hg hq)
  | singleModel s hq => exact hany (ModelQuery.upholds_fetchSingleModel hkept hg hq)
  | queried s hq => exact hany (ModelQuery.upholds_fetchCollection hkept hg hq)
  | forgeNew s modelType => exact hany (Model.upholds_forgeNew hkept hg modelType)
  | forgeById s modelType id => exact hany (Model.upholds_forgeById hkept hg modelType id)
  | forgeRecord s r => exact hany (Model.upholds_forgeRecord hg r)
  | ofType s modelType => exact hany (Collection.upholds_forModelType hg modelType)
  | polymorphic s entityType => exact hany (Collection.upholds_polymorphic hg entityType)
  | forgeByIds s modelType ids => exact hany (Collection.upholds_forgeByIds hkept hg modelType ids)
  | setField hm field v => exact hany (Model.upholds_setField hg hm field v)
  | connect hm hfar name => exact hany (Model.upholds_put hg hm hfar name)
  | clear hm name => exact hany (Model.upholds_clearRelationship hg hm)
  | delete hm => exact hany (Model.upholds_delete hkept hg hm)
  | put hc hm => exact hany (Collection.upholds_put hg hc hm)
  | putSnapshot hc hm => exact hany (Collection.upholds_putSnapshot hg hc hm)
  | putNew hc => exact hany (Collection.upholds_putNew hkept hg hc)
  | remove hc key => exact hany (Collection.upholds_remove hg hc key)
  | removeModel hc m => exact hany (Collection.upholds_removeModel hg hc m)
  | sort hc path direction => exact hany (Collection.upholds_sortByField hg hc path direction)
  | rekey hc oldKey => exact hany (Collection.upholds_replaceOldKey hg hc oldKey)
  | get hr path => exact hany (Related.upholds_get hg hr path)
  | fetch hr path callers => exact hany (Related.upholds_fetch hkept hg hr path callers)
  | save hr path => exact hany (Related.upholds_save hkept hg hr path)
  | validate hr path => exact hany (Related.upholds_validate hg hr path)

/-- Every call leaves a sound graph that has grown, whether it answers or fails. -/
theorem Offers.proceeds (hkept : RecordStore.Keeps Kept) (hg : g.Sound Kept) {x : Action σ α}
    (h : g.Offers x) : g.Proceeds Kept (x g).2 := by
  rcases h.upholds_or_closes hkept hg with hupholds | ⟨s, hcloses⟩
  · exact hupholds.toProceeds
  · cases hcloses
    exact (Session.proceeds_close hg).1

/-- Only closing makes a session forget models. -/
theorem Offers.remembers (hkept : RecordStore.Keeps Kept) (hg : g.Sound Kept) {x : Action σ α}
    (h : g.Offers x) {s : Session} (hopen : ¬ Closes s x) : g.Remembers s (x g).2 := by
  rcases h.upholds_or_closes hkept hg with hupholds | ⟨t, hcloses⟩
  · exact hupholds.remembers s
  · cases hcloses
    refine (Session.proceeds_close hg).2 s fun hsame => hopen ?_
    exact hsame ▸ .intro

/-- The graphs that calls lead to. -/
inductive Reachable (Kept : σ → Prop) : Graph σ → Prop where
  | new {store : σ} {registry : Registry} (hstore : Kept store)
      (hregistry : registry.WellFormed) : Reachable Kept (Graph.new store registry)
  | call {g : Graph σ} {α : Type} {x : Action σ α} (hg : Reachable Kept g) (hx : g.Offers x) :
      Reachable Kept (x g).2
  | store {g : Graph σ} {store : σ} (hg : Reachable Kept g) (hstore : Kept store) :
      Reachable Kept { g with store := store }

/-- Every history leads to a sound graph. -/
theorem Reachable.sound (hkept : RecordStore.Keeps Kept) (h : Reachable Kept g) :
    g.Sound Kept := by
  induction h with
  | new hstore hregistry => exact ⟨WellFormed.new hregistry, hstore⟩
  | call _ hx ih => exact (hx.proceeds hkept ih).sound
  | store _ hstore ih => exact ⟨(ih.wellFormed.withStore _).1, hstore⟩

/-- Every history leaves things loaded where they belong. -/
theorem Reachable.orderly (hkept : RecordStore.Keeps Kept) (h : Reachable Kept g) :
    g.Orderly := by
  induction h with
  | new hstore hregistry => exact .new _ _
  | call hbefore hx ih => exact (hx.proceeds hkept (hbefore.sound hkept)).orderly ih
  | store _ hstore ih => exact ih.of_models rfl rfl fun _ _ _ _ => rfl

end Graph

/-! ## The store in memory -/

/-- All calls on the store in memory keep its records filed, and what is saved has an
identifier. -/
theorem MemoryStore.keeps_filed : RecordStore.Keeps MemoryStore.Filed where
  create _ _ _ h := h
  load _ _ _ h := h.of_records rfl
  loadMultiple _ _ _ h := h.of_records rfl
  execute q s h := h.of_records (records_execute q s)
  count _ _ h := h.of_records rfl
  aggregate _ _ _ h := h.of_records rfl
  save r _ h := h.save r
  delete r _ h := h.delete r
  saved r s stored _ h := by
    obtain ⟨id, hput, -⟩ := s.put_eq r
    have hstored : stored = r.withId id := by
      rw [← hput]
      exact (Except.ok.inj h).symm
    rw [hstored]
    rfl

/-! ## A small library

Authors and their articles in memory, seen through a session that asks for one identifier at a
time. -/

namespace Library

/-- An author; the articles hold the foreign key. -/
def author : ModelType :=
  (ModelType.new "author" "node" "author").declare (.referenced "articles" "article" "author")

/-- An article, which refers to its author. -/
def article : ModelType :=
  (ModelType.new "article" "node" "article").declare (.field "author" "writer" "author")

theorem wellFormed_author : author.WellFormed := (ModelType.wellFormed_new _ _ _).declare _

theorem wellFormed_article : article.WellFormed := (ModelType.wellFormed_new _ _ _).declare _

/-- The registry of some types; without types if they do not go together. -/
def registry (types : List ModelType) : Registry :=
  (Registry.build types).toOption.getD Registry.empty

theorem wellFormed_registry {types : List ModelType} (htypes : ∀ t ∈ types, t.WellFormed) :
    (registry types).WellFormed := by
  unfold registry
  cases hbuild : Registry.build types with
  | error e =>
      intro name t h
      simp [Except.toOption, Registry.empty] at h
  | ok built => exact Registry.wellFormed_build htypes hbuild

/-- An article as it is stored. -/
def written (id writer : String) : Record :=
  ((Record.new "node" "article").withId id).set "writer" (.object [("target_id", .text writer)])

/-- Two authors and an article of each. -/
def store : MemoryStore :=
  [(Record.new "node" "author").withId "ann", (Record.new "node" "author").withId "bob",
    written "cells" "ann", written "trees" "bob"].foldl
    (fun s r => (s.seed r).2) MemoryStore.empty

theorem filed_store : store.Filed :=
  (((MemoryStore.filed_empty.seed _).seed _).seed _).seed _

/-- The only session. -/
def session : Session := ⟨0⟩

/-- The graph with the session opened and nothing forged. -/
def opened (types : List ModelType) : Graph MemoryStore :=
  (Session.start ⟨"PLH", .and, some 1, false⟩ (Graph.new store (registry types))).2

theorem reachable_opened {types : List ModelType} (htypes : ∀ t ∈ types, t.WellFormed) :
    Graph.Reachable MemoryStore.Filed (opened types) :=
  .call (.new filed_store (wellFormed_registry htypes)) (.start _)

/-- The graph with both authors forged, and an unsaved article put to the first one. -/
def authors : Graph MemoryStore :=
  let g := (Model.forgeById session "author" "ann" (opened [author, article])).2
  let g := (Model.forgeById session "author" "bob" g).2
  let g := (Model.forgeNew session "article" g).2
  (Model.put ⟨0⟩ "articles" ⟨2⟩ g).2

theorem reachable_authors : Graph.Reachable MemoryStore.Filed authors := by
  have htypes : ∀ t ∈ [author, article], t.WellFormed := by
    simp [wellFormed_author, wellFormed_article]
  refine .call (.call (.call (.call (reachable_opened htypes) (.forgeById _ _ _))
    (.forgeById _ _ _)) (.forgeNew _ _)) (.connect ?_ ?_ _)
  · decide +kernel
  · decide +kernel

/-- What a relationship of a model amounts to. -/
def resolvedOf (g : Graph MemoryStore) (m : Model) (name : String) : Resolved :=
  (g.registry.resolve (g.model m).modelType.name name).toOption.getD default

/-- The two authors. -/
def both : List Model := [⟨0⟩, ⟨1⟩]

/-- What the relationship from an author to the articles amounts to. -/
def articles : Resolved := (authors.registry.resolve "author" "articles").toOption.getD default

/-- The graph after the articles of both authors were fetched. -/
def stocked : Graph MemoryStore := (fetchRelationship session both "articles" none authors).2

theorem returns_stocked :
    Returns (fetchRelationship session both "articles" none) authors () stocked :=
  returns_of_isOk (by decide +kernel) ()

end Library

end RecordGraph
