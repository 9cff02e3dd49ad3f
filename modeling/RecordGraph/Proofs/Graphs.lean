/-
# What graphs promise

Every object that a model, a collection or a session refers to was made in the same graph,
every model is of a registered type, and a collection files its unsaved members under their
own keys. Each object is judged by itself, against the graph that it stands in; what fits into
a graph goes on to fit while the graph grows. So a step has to answer only for the one object
that it writes.
-/
import RecordGraph.Proofs.Fetching.Unloading
import RecordGraph.Proofs.Registries

namespace RecordGraph

variable {σ : Type}

/-- What a model may hold in a graph. -/
structure ModelData.Fits (d : ModelData) (g : Graph σ) : Prop where
  typed : g.registry.get d.modelType.name = .ok d.modelType
  parents : ∀ name p, d.parents.get? name = some p → g.HasModel p
  children : ∀ name c, d.children.get? name = some c → g.HasCollection c

/-- What a collection may hold in a graph. -/
structure CollectionData.Fits (d : CollectionData) (g : Graph σ) : Prop where
  admits : ∀ t, d.membership = .ofType t → g.registry.get t.name = .ok t
  members : ∀ key m, d.members.get? key = some m → g.HasModel m
  snapshot : ∀ key m, d.snapshot.get? key = some m → g.HasModel m
  filed : ∀ key m, d.members.get? key = some m → (g.model m).record.isNew = true →
    key = (g.model m).key

namespace Graph

/-- What holds between the objects of a graph. -/
structure WellFormed (g : Graph σ) : Prop where
  registry : g.registry.WellFormed
  models : ∀ m, g.HasModel m → (g.model m).Fits g
  collections : ∀ c, g.HasCollection c → (g.collection c).Fits g
  forged : ∀ s m, m ∈ (g.session s).forged → g.HasModel m

/-- What is made stays. A model keeps its type and its key, and does not become unsaved. -/
structure Grows (g g' : Graph σ) : Prop where
  registry : g'.registry = g.registry
  model : ∀ m, g.HasModel m → g'.HasModel m
  collection : ∀ c, g.HasCollection c → g'.HasCollection c
  modelType : ∀ m, g.HasModel m → (g'.model m).modelType = (g.model m).modelType
  key : ∀ m, g.HasModel m → (g'.model m).key = (g.model m).key
  stored : ∀ m, g.HasModel m → (g'.model m).record.isNew = true →
    (g.model m).record.isNew = true

namespace Grows

theorem refl (g : Graph σ) : g.Grows g :=
  ⟨rfl, fun _ h => h, fun _ h => h, fun _ _ => rfl, fun _ _ => rfl, fun _ _ h => h⟩

theorem trans {g₁ g₂ g₃ : Graph σ} (first : g₁.Grows g₂) (second : g₂.Grows g₃) :
    g₁.Grows g₃ where
  registry := second.registry.trans first.registry
  model m hm := second.model m (first.model m hm)
  collection c hc := second.collection c (first.collection c hc)
  modelType m hm := (second.modelType m (first.model m hm)).trans (first.modelType m hm)
  key m hm := (second.key m (first.model m hm)).trans (first.key m hm)
  stored m hm hnew := first.stored m hm (second.stored m (first.model m hm) hnew)

end Grows

/-- The session has not forgotten a model: it remembers the models that it did and those that it
forged since. A model stays with its session. -/
structure Remembers (g : Graph σ) (s : Session) (g' : Graph σ) : Prop where
  forged : ∀ m, m ∈ (g'.session s).forged ↔
    m ∈ (g.session s).forged ∨ ¬ g.HasModel m ∧ g'.HasModel m ∧ (g'.model m).session = s
  session : ∀ m, g.HasModel m → (g'.model m).session = (g.model m).session

namespace Remembers

variable {s : Session}

/-- No model is forged. -/
theorem of_same {g g' : Graph σ} (hmade : ∀ m, g'.HasModel m → g.HasModel m)
    (hforged : (g'.session s).forged = (g.session s).forged)
    (hsession : ∀ m, g.HasModel m → (g'.model m).session = (g.model m).session) :
    g.Remembers s g' where
  forged m := by
    rw [hforged]
    exact (or_iff_left fun hnew => hnew.1 (hmade m hnew.2.1)).symm
  session := hsession

theorem refl (g : Graph σ) : g.Remembers s g := .of_same (fun _ h => h) rfl fun _ _ => rfl

theorem trans {g₁ g₂ g₃ : Graph σ} (first : g₁.Remembers s g₂) (second : g₂.Remembers s g₃)
    (hfirst : g₁.Grows g₂) (hsecond : g₂.Grows g₃) : g₁.Remembers s g₃ where
  forged m := by
    rw [second.forged, first.forged, or_assoc]
    refine or_congr_right ⟨?_, fun ⟨hnew, hmade, hsession⟩ => ?_⟩
    · rintro (⟨hnew, hmade, hsession⟩ | ⟨hnew, hmade, hsession⟩)
      · exact ⟨hnew, hsecond.model m hmade, (second.session m hmade).trans hsession⟩
      · exact ⟨fun hold => hnew (hfirst.model m hold), hmade, hsession⟩
    · by_cases hbetween : g₂.HasModel m
      · exact .inl ⟨hnew, hbetween, (second.session m hbetween).symm.trans hsession⟩
      · exact .inr ⟨hbetween, hmade, hsession⟩
  session m hm := (second.session m (hfirst.model m hm)).trans (first.session m hm)

end Remembers

end Graph

/-! ## What fits goes on to fit -/

section Fitting

variable {g g' : Graph σ}

theorem ModelData.Fits.later {d : ModelData} (h : d.Fits g) (hgrows : g.Grows g') :
    d.Fits g' where
  typed := by rw [hgrows.registry, h.typed]
  parents name p hp := hgrows.model p (h.parents name p hp)
  children name c hc := hgrows.collection c (h.children name c hc)

theorem CollectionData.Fits.later {d : CollectionData} (h : d.Fits g) (hgrows : g.Grows g') :
    d.Fits g' where
  admits t ht := by rw [hgrows.registry, h.admits t ht]
  members key m hm := hgrows.model m (h.members key m hm)
  snapshot key m hm := hgrows.model m (h.snapshot key m hm)
  filed key m hm hnew := by
    have hmade := h.members key m hm
    rw [h.filed key m hm (hgrows.stored m hmade hnew), hgrows.key m hmade]

end Fitting

namespace Graph.WellFormed

variable {g g' : Graph σ}

/-! ## What is read off a well-formed graph -/

theorem typed (hg : g.WellFormed) (m : Model) (hm : g.HasModel m) :
    g.registry.get (g.model m).modelType.name = .ok (g.model m).modelType :=
  (hg.models m hm).typed

theorem parents (hg : g.WellFormed) (m : Model) (name : String) (p : Model) (hm : g.HasModel m)
    (hp : (g.model m).parents.get? name = some p) : g.HasModel p :=
  (hg.models m hm).parents name p hp

theorem children (hg : g.WellFormed) (m : Model) (name : String) (c : Collection)
    (hm : g.HasModel m) (hc : (g.model m).children.get? name = some c) : g.HasCollection c :=
  (hg.models m hm).children name c hc

theorem members (hg : g.WellFormed) (c : Collection) (key : String) (m : Model)
    (hc : g.HasCollection c) (hm : (g.collection c).members.get? key = some m) : g.HasModel m :=
  (hg.collections c hc).members key m hm

theorem filed (hg : g.WellFormed) (c : Collection) (key : String) (m : Model)
    (hc : g.HasCollection c) (hm : (g.collection c).members.get? key = some m)
    (hnew : (g.model m).record.isNew = true) : key = (g.model m).key :=
  (hg.collections c hc).filed key m hm hnew

/-- What the type declares of a name agrees with what the relationship amounts to. -/
theorem holdsSingle_eq (hg : g.WellFormed) {m : Model} (hm : g.HasModel m) {name : String}
    {r : Resolved} (hr : g.registry.resolve (g.model m).modelType.name name = .ok r) :
    (g.model m).modelType.holdsSingle name = r.holdsSingle :=
  Registry.holdsSingle_of_resolve hg.registry (hg.typed m hm) hr

/-- The way back from a far model holds a single model where the key is a single one. -/
theorem holdsSingle_back (hg : g.WellFormed) {m far : Model} (hfar : g.HasModel far)
    {name inverse : String} {r : Resolved}
    (hr : g.registry.resolve (g.model m).modelType.name name = .ok r)
    (hinverse : r.inverseOn? (g.model far).modelType.name = some inverse) :
    (g.model far).modelType.holdsSingle inverse = r.heldSingly :=
  Registry.holdsSingle_inverse hg.registry (hg.typed far hfar) hr hinverse

/-- In a well-formed graph any members can be fetched for. -/
theorem fetchable (hg : g.WellFormed) {members : List Model} (hnodup : members.Nodup)
    (hmembers : ∀ m ∈ members, g.HasModel m) (name : String) : g.Fetchable name members :=
  ⟨hnodup, hmembers, fun m hm c hc => hg.children m name c (hmembers m hm) hc⟩

/-- What a model has loaded that is not saved was made in the graph. -/
theorem of_mem_unsavedChildren (hg : g.WellFormed) {m x : Model} {name : String}
    (hm : g.HasModel m) (hx : x ∈ g.unsavedChildren m name) :
    g.HasModel x ∧ (g.model x).record.isNew = true := by
  unfold unsavedChildren at hx
  split at hx
  · rename_i c hc
    obtain ⟨hmember, hnew⟩ := List.mem_filter.mp hx
    obtain ⟨key, hkey⟩ := OrderedMap.mem_values_iff.mp hmember
    exact ⟨hg.members c key x (hg.children m name c hm hc) hkey, hnew⟩
  · cases hx

/-- The unsaved models in one collection have different keys. -/
theorem nodup_keys_unsavedChildren (hg : g.WellFormed) {m : Model} (hm : g.HasModel m)
    (name : String) : ((g.unsavedChildren m name).map fun x => (g.model x).key).Nodup := by
  unfold unsavedChildren
  split
  · rename_i c hc
    have hkeys : ((g.collection c).members.values.filter fun x => (g.model x).record.isNew).map
          (fun x => (g.model x).key) =
        ((g.collection c).members.entries.filter
          fun e => (g.model e.2).record.isNew).map Prod.fst := by
      rw [OrderedMap.values, List.filter_map, List.map_map]
      refine List.map_congr_left fun e he => ?_
      obtain ⟨hmem, hnew⟩ := List.mem_filter.mp he
      exact (hg.filed c e.1 e.2 (hg.children m name c hm hc)
        (OrderedMap.get?_eq_some_iff.mpr hmem) hnew).symm
    rw [hkeys]
    exact (List.filter_sublist.map Prod.fst).nodup (g.collection c).members.distinct
  · simp

/-! ## What is written to a well-formed graph -/

theorem new {store : σ} {registry : Registry} (h : registry.WellFormed) :
    (Graph.new store registry).WellFormed where
  registry := h
  models m hm := absurd hm (Nat.not_lt_zero _)
  collections c hc := absurd hc (Nat.not_lt_zero _)
  forged s m hm := by
    have hnothing : ((Graph.new store registry).session s).forged = [] := by
      rw [Graph.session, Graph.new, Cells.get, Cells.empty, Array.getElem?_empty]
      rfl
    rw [hnothing] at hm
    exact absurd hm List.not_mem_nil

/-- A graph that grew is well formed if every object in it is as before or fits. -/
theorem of_grows (hg : g.WellFormed) (hgrows : g.Grows g')
    (hmodels : ∀ m, g'.HasModel m →
      (g.HasModel m ∧ g'.model m = g.model m) ∨ (g'.model m).Fits g')
    (hcollections : ∀ c, g'.HasCollection c →
      (g.HasCollection c ∧ g'.collection c = g.collection c) ∨ (g'.collection c).Fits g')
    (hforged : ∀ s m, m ∈ (g'.session s).forged → g'.HasModel m) : g'.WellFormed where
  registry := by rw [hgrows.registry]; exact hg.registry
  models m hm := by
    rcases hmodels m hm with ⟨hmade, hsame⟩ | hfits
    · rw [hsame]
      exact (hg.models m hmade).later hgrows
    · exact hfits
  collections c hc := by
    rcases hcollections c hc with ⟨hmade, hsame⟩ | hfits
    · rw [hsame]
      exact (hg.collections c hmade).later hgrows
    · exact hfits
  forged := hforged

/-- Nothing but the store has changed. -/
theorem withStore (hg : g.WellFormed) (store : σ) :
    WellFormed { g with store := store } ∧ g.Grows { g with store := store } := by
  have hgrows : g.Grows { g with store := store } :=
    ⟨rfl, fun _ h => h, fun _ h => h, fun _ _ => rfl, fun _ _ => rfl, fun _ _ h => h⟩
  exact ⟨hg.of_grows hgrows (fun m hm => .inl ⟨hm, rfl⟩) (fun c hc => .inl ⟨hc, rfl⟩) hg.forged,
    hgrows⟩

/-- A session may forget models and remember models of the graph. -/
theorem setSession (hg : g.WellFormed) (s : Session) {d : SessionData}
    (hd : ∀ m ∈ d.forged, g.HasModel m) :
    (g.setSession s d).WellFormed ∧ g.Grows (g.setSession s d) := by
  have hgrows : g.Grows (g.setSession s d) :=
    ⟨rfl, fun _ h => h, fun _ h => h, fun _ _ => rfl, fun _ _ => rfl, fun _ _ h => h⟩
  refine ⟨hg.of_grows hgrows (fun m hm => .inl ⟨hm, rfl⟩) (fun c hc => .inl ⟨hc, rfl⟩) ?_, hgrows⟩
  intro t m hm
  rw [session_setSession] at hm
  split at hm
  · exact hd m hm
  · exact hg.forged t m hm

theorem addSession (hg : g.WellFormed) (config : Config) :
    WellFormed { g with sessions := g.sessions.push ⟨config, 0, OrderedMap.empty, []⟩ } ∧
      g.Grows { g with sessions := g.sessions.push ⟨config, 0, OrderedMap.empty, []⟩ } := by
  have hgrows : g.Grows { g with sessions := g.sessions.push ⟨config, 0, OrderedMap.empty, []⟩ } :=
    ⟨rfl, fun _ h => h, fun _ h => h, fun _ _ => rfl, fun _ _ => rfl, fun _ _ h => h⟩
  refine ⟨hg.of_grows hgrows (fun m hm => .inl ⟨hm, rfl⟩) (fun c hc => .inl ⟨hc, rfl⟩) ?_, hgrows⟩
  intro s m hm
  simp only [session, Cells.get_push] at hm
  split at hm
  · simp at hm
  · exact hg.forged s m hm

/-- A model may load and unload objects of the graph, and be stored. -/
theorem setModel (hg : g.WellFormed) {m : Model} {d : ModelData} (hm : g.HasModel m)
    (hd : d.Fits g) (htype : d.modelType = (g.model m).modelType) (hkey : d.key = (g.model m).key)
    (hnew : d.record.isNew = true → (g.model m).record.isNew = true) :
    (g.setModel m d).WellFormed ∧ g.Grows (g.setModel m d) := by
  have hmade := hasModel_setModel (d := d) hm
  have hgrows : g.Grows (g.setModel m d) := by
    refine ⟨rfl, fun n => (hmade n).mpr, fun _ h => h, ?_, ?_, ?_⟩
    · intro n _
      rw [model_setModel]
      split
      · rename_i hsame
        rw [htype, hsame]
      · rfl
    · intro n _
      rw [model_setModel]
      split
      · rename_i hsame
        rw [hkey, hsame]
      · rfl
    · intro n _
      rw [model_setModel]
      split
      · rename_i hsame
        rw [← hsame]
        exact hnew
      · exact id
  refine ⟨hg.of_grows hgrows ?_ (fun c hc => .inl ⟨hc, rfl⟩) ?_, hgrows⟩
  · intro n hn
    rw [model_setModel]
    split
    · exact .inr (hd.later hgrows)
    · exact .inl ⟨(hmade n).mp hn, rfl⟩
  · exact fun s n hn => (hmade n).mpr (hg.forged s n hn)

/-- A collection may hold models of the graph. -/
theorem setCollection (hg : g.WellFormed) {c : Collection} {d : CollectionData}
    (hc : g.HasCollection c) (hd : d.Fits g) :
    (g.setCollection c d).WellFormed ∧ g.Grows (g.setCollection c d) := by
  have hmade := hasCollection_setCollection (d := d) hc
  have hgrows : g.Grows (g.setCollection c d) :=
    ⟨rfl, fun _ h => h, fun e => (hmade e).mpr, fun _ _ => rfl, fun _ _ => rfl, fun _ _ h => h⟩
  refine ⟨hg.of_grows hgrows (fun m hm => .inl ⟨hm, rfl⟩) ?_ hg.forged, hgrows⟩
  intro e he
  rw [collection_setCollection]
  split
  · exact .inr (hd.later hgrows)
  · exact .inl ⟨(hmade e).mp he, rfl⟩

theorem addModel (hg : g.WellFormed) {d : ModelData} (hd : d.Fits g) :
    (g.addModel d).WellFormed ∧ g.Grows (g.addModel d) ∧ (g.addModel d).HasModel g.nextModel := by
  have hmade := hasModel_addModel g d
  have hgrows : g.Grows (g.addModel d) := by
    refine ⟨rfl, fun n hn => (hmade n).mpr (.inl hn), fun _ h => h, ?_, ?_, ?_⟩
    all_goals
      intro n hn
      rw [model_addModel, if_neg hn.ne_nextModel]
    exact id
  refine ⟨hg.of_grows hgrows ?_ (fun c hc => .inl ⟨hc, rfl⟩) ?_, hgrows, (hmade _).mpr (.inr rfl)⟩
  · intro n hn
    rw [model_addModel]
    split
    · exact .inr (hd.later hgrows)
    · rename_i hother
      exact .inl ⟨((hmade n).mp hn).resolve_right hother, rfl⟩
  · exact fun s n hn => (hmade n).mpr (.inl (hg.forged s n hn))

theorem addCollection (hg : g.WellFormed) {d : CollectionData} (hd : d.Fits g) :
    (g.addCollection d).WellFormed ∧ g.Grows (g.addCollection d) ∧
      (g.addCollection d).HasCollection g.nextCollection := by
  have hmade := hasCollection_addCollection g d
  have hgrows : g.Grows (g.addCollection d) :=
    ⟨rfl, fun _ h => h, fun e he => (hmade e).mpr (.inl he), fun _ _ => rfl, fun _ _ => rfl,
      fun _ _ h => h⟩
  refine ⟨hg.of_grows hgrows (fun m hm => .inl ⟨hm, rfl⟩) ?_ hg.forged, hgrows,
    (hmade _).mpr (.inr rfl)⟩
  intro e he
  rw [collection_addCollection]
  split
  · exact .inr (hd.later hgrows)
  · rename_i hother
    exact .inl ⟨((hmade e).mp he).resolve_right hother, rfl⟩

end Graph.WellFormed

/-! ## What collections admit -/

/-- What a collection for the far models of a relationship admits. -/
def Registry.membershipFor (registry : Registry) (r : Resolved) : Except Error Membership :=
  match r.farTypes with
  | [] => .error (.configuration (.noTarget r.name))
  | far :: _ => do
    let t ← registry.get far
    return if r.polymorphic then .ofEntity (some t.entityType) else .ofType t

/-- What a collection for a relationship admits is decided from the start. -/
theorem Registry.ne_open_of_membershipFor {registry : Registry} {r : Resolved}
    {membership : Membership} (h : registry.membershipFor r = .ok membership) :
    membership ≠ .ofEntity none := by
  unfold membershipFor at h
  split at h
  · cases h
  · simp only [except_bind_eq_ok, except_pure_eq_ok] at h
    obtain ⟨t, -, rfl⟩ := h
    split
    · simp
    · simp

/-- A collection that is made for a relationship admits what the relationship leads to. -/
theorem Collection.membershipFor_of_forRelationship {g g' : Graph σ} {s : Session} {r : Resolved}
    {c : Collection} (h : Returns (forRelationship s r) g c g') :
    g.registry.membershipFor r = .ok (g'.collection c).membership := by
  unfold forRelationship at h
  unfold Registry.membershipFor
  cases hfars : r.farTypes with
  | nil =>
      rw [hfars] at h
      exact absurd h returns_throw
  | cons far rest =>
      simp only [hfars, returns_bind, returns_get, returns_ofExcept] at h
      obtain ⟨_, _, ⟨rfl, rfl⟩, t, _, ⟨rfl, ht⟩, h⟩ := h
      refine except_bind_eq_ok.mpr ⟨t, ht, except_pure_eq_ok.mpr ?_⟩
      split at h
      · rename_i hpolymorphic
        obtain ⟨rfl, rfl⟩ := returns_make.mp h
        rw [if_pos hpolymorphic, Graph.collection_addCollection, if_pos rfl]
      · rename_i hsingle
        obtain ⟨rfl, rfl⟩ := returns_make.mp h
        rw [if_neg hsingle, Graph.collection_addCollection, if_pos rfl]

/-- What is admitted stays, or was open and is decided. -/
def Membership.Settles (before after : Membership) : Prop :=
  after = before ∨ before = .ofEntity none ∧ ∃ entityType, after = .ofEntity (some entityType)

theorem Membership.Settles.trans {first second third : Membership} (h : first.Settles second)
    (h' : second.Settles third) : first.Settles third := by
  rcases h with rfl | ⟨hopen, entityType, rfl⟩
  · exact h'
  · rcases h' with rfl | ⟨hopen', -⟩
    · exact .inr ⟨hopen, entityType, rfl⟩
    · cases hopen'

/-! ## Where things are loaded -/

namespace Graph

/-- No model has the collection loaded. -/
def Unheld (g : Graph σ) (c : Collection) : Prop :=
  ∀ m name, (g.model m).children.get? name ≠ some c

/-- A parent is loaded under the name of a relationship that holds a single foreign key, a
collection under the name of any other one that resolves, and no collection is loaded in two
places. A collection that is loaded admits what the relationship leads to. -/
structure Orderly (g : Graph σ) : Prop where
  parents : ∀ m name p, (g.model m).parents.get? name = some p →
    (g.model m).modelType.holdsSingle name = true
  children : ∀ m name c, (g.model m).children.get? name = some c →
    (g.model m).modelType.holdsSingle name = false ∧
      ∃ r, g.registry.resolve (g.model m).modelType.name name = .ok r
  apart : ∀ m n name other c, (g.model m).children.get? name = some c →
    (g.model n).children.get? other = some c → m = n ∧ name = other
  fitted : ∀ m name c r, (g.model m).children.get? name = some c →
    g.registry.resolve (g.model m).modelType.name name = .ok r →
    g.registry.membershipFor r = .ok (g.collection c).membership

/-- A model that was never made has nothing loaded. -/
theorem model_of_not_hasModel {g : Graph σ} {m : Model} (h : ¬ g.HasModel m) :
    g.model m = default := by
  have hnone : g.models.items[m.number]? = none := Array.getElem?_eq_none (Nat.le_of_not_lt h)
  rw [model, Cells.get, hnone]
  rfl

/-- What is loaded was made. -/
theorem WellFormed.made {g : Graph σ} (hg : g.WellFormed) (m : Model) (name : String)
    (c : Collection) (hc : (g.model m).children.get? name = some c) : g.HasCollection c := by
  by_cases hm : g.HasModel m
  · exact hg.children m name c hm hc
  · rw [model_of_not_hasModel hm] at hc
    cases hc

/-- A collection that is made next is loaded nowhere yet. -/
theorem WellFormed.unheld_nextCollection {g : Graph σ} (hg : g.WellFormed) (d : CollectionData) :
    (g.addCollection d).Unheld g.nextCollection := by
  intro m name hloaded
  exact g.not_hasCollection_nextCollection (hg.made m name _ hloaded)

namespace Orderly

variable {g g' : Graph σ} {m : Model}

theorem new (store : σ) (registry : Registry) : (Graph.new store registry).Orderly := by
  have hnothing : ∀ m, (Graph.new store registry).model m = default :=
    fun m => model_of_not_hasModel (Nat.not_lt_zero _)
  refine ⟨fun m name p hp => ?_, fun m name c hc => ?_, fun m n name other c hc => ?_,
    fun m name c r hc => ?_⟩
  · rw [hnothing] at hp
    cases hp
  · rw [hnothing] at hc
    cases hc
  · rw [hnothing] at hc
    cases hc
  · rw [hnothing] at hc
    cases hc

/-- The models are as before, and the collections that they have loaded admit what they did. -/
theorem of_models (h : g.Orderly) (hregistry : g'.registry = g.registry)
    (hmodels : g'.models = g.models) (hmembership : ∀ m name c,
      (g.model m).children.get? name = some c →
        (g'.collection c).membership = (g.collection c).membership) : g'.Orderly := by
  have hmodel : ∀ m, g'.model m = g.model m := by
    intro m
    rw [model, hmodels]
    rfl
  refine ⟨fun m name p hp => ?_, fun m name c hc => ?_, fun m n name other c hm hn => ?_,
    fun m name c r hc hr => ?_⟩
  · rw [hmodel m] at hp ⊢
    exact h.parents m name p hp
  · rw [hmodel m] at hc
    rw [hmodel m, hregistry]
    exact h.children m name c hc
  · rw [hmodel m] at hm
    rw [hmodel n] at hn
    exact h.apart m n name other c hm hn
  · rw [hmodel m] at hc hr
    rw [hregistry] at hr ⊢
    rw [hmembership m name c hc]
    exact h.fitted m name c r hc hr

/-- A collection that is made is loaded nowhere. -/
theorem addCollection (h : g.Orderly) (hg : g.WellFormed) (d : CollectionData) :
    (g.addCollection d).Orderly :=
  h.of_models rfl rfl fun m name c hc => by
    rw [collection_addCollection, if_neg (hg.made m name c hc).ne_nextCollection]

/-- What a collection that is loaded admits was decided when it was made. -/
theorem setCollection (h : g.Orderly) {c : Collection} {d : CollectionData}
    (hd : (g.collection c).membership.Settles d.membership) : (g.setCollection c d).Orderly := by
  refine h.of_models rfl rfl fun m name e he => ?_
  rw [collection_setCollection]
  split
  · rename_i hsame
    subst hsame
    obtain ⟨-, r, hr⟩ := h.children m name c he
    have hdecided := Registry.ne_open_of_membershipFor (h.fitted m name c r he hr)
    exact hd.resolve_right fun hopen => hdecided hopen.1
  · rfl

/-- A model may unload what it has loaded, and load parents where it holds a single key. -/
theorem setModel (h : g.Orderly) {d : ModelData} (htype : d.modelType = (g.model m).modelType)
    (hparents : ∀ name p, d.parents.get? name = some p →
      (g.model m).modelType.holdsSingle name = true)
    (hchildren : ∀ name c, d.children.get? name = some c →
      (g.model m).children.get? name = some c) : (g.setModel m d).Orderly := by
  have hloaded : ∀ n name c, ((g.setModel m d).model n).children.get? name = some c →
      (g.model n).children.get? name = some c := by
    intro n name c hc
    rw [model_setModel] at hc
    split at hc
    · rename_i hsame
      exact hsame ▸ hchildren name c hc
    · exact hc
  have htyped : ∀ n, ((g.setModel m d).model n).modelType = (g.model n).modelType := by
    intro n
    rw [model_setModel]
    split
    · rename_i hsame
      rw [htype, hsame]
    · rfl
  refine ⟨fun n name p hp => ?_, fun n name c hc => ?_,
    fun n n' name other c hn hn' => h.apart n n' name other c (hloaded n name c hn)
      (hloaded n' other c hn'), fun n name c r hc hr => ?_⟩
  · rw [htyped]
    rw [model_setModel] at hp
    split at hp
    · rename_i hsame
      exact hsame ▸ hparents name p hp
    · exact h.parents n name p hp
  · rw [htyped]
    exact h.children n name c (hloaded n name c hc)
  · rw [htyped] at hr
    exact h.fitted n name c r (hloaded n name c hc) hr

/-- A model may load a collection that is loaded nowhere else and was made for the
relationship. -/
theorem setChildren (h : g.Orderly) {name : String} {c : Collection} {r : Resolved}
    (hc : g.Unheld c) (hr : g.registry.resolve (g.model m).modelType.name name = .ok r)
    (hfits : g.registry.membershipFor r = .ok (g.collection c).membership)
    (hmany : (g.model m).modelType.holdsSingle name = false) :
    (g.setModel m { g.model m with
      children := (g.model m).children.insert name c }).Orderly := by
  have hloaded : ∀ n other e, ((g.setModel m { g.model m with
      children := (g.model m).children.insert name c }).model n).children.get? other = some e →
        (n = m ∧ other = name ∧ e = c) ∨ (g.model n).children.get? other = some e := by
    intro n other e he
    rw [model_setModel] at he
    split at he
    · rename_i hsame
      rw [OrderedMap.get?_insert] at he
      split at he
      · rename_i hname
        exact .inl ⟨hsame.symm, hname.symm, (Option.some.inj he).symm⟩
      · exact .inr (hsame ▸ he)
    · exact .inr he
  have hsame : ∀ n, ((g.setModel m { g.model m with
      children := (g.model m).children.insert name c }).model n).modelType =
        (g.model n).modelType ∧ ((g.setModel m { g.model m with
      children := (g.model m).children.insert name c }).model n).parents =
        (g.model n).parents := by
    intro n
    rw [model_setModel]
    split
    · rename_i hmn
      rw [hmn]
      exact ⟨rfl, rfl⟩
    · exact ⟨rfl, rfl⟩
  refine ⟨fun n other p hp => ?_, fun n other e he => ?_,
    fun n n' other other' e he he' => ?_, fun n other e r' he hr' => ?_⟩
  · rw [(hsame n).2] at hp
    rw [(hsame n).1]
    exact h.parents n other p hp
  · rw [(hsame n).1]
    rcases hloaded n other e he with ⟨rfl, rfl, -⟩ | hold
    · exact ⟨hmany, r, hr⟩
    · exact h.children n other e hold
  · rcases hloaded n other e he with ⟨rfl, rfl, rfl⟩ | hold
    · rcases hloaded n' other' e he' with ⟨rfl, rfl, -⟩ | hold'
      · exact ⟨rfl, rfl⟩
      · exact absurd hold' (hc n' other')
    · rcases hloaded n' other' e he' with ⟨-, -, rfl⟩ | hold'
      · exact absurd hold (hc n other)
      · exact h.apart n n' other other' e hold hold'
  · rw [(hsame n).1] at hr'
    rcases hloaded n other e he with ⟨rfl, rfl, rfl⟩ | hold
    · obtain rfl := Except.ok.inj (hr.symm.trans hr')
      exact hfits
    · exact h.fitted n other e r' hold hr'

/-- A model that is made has nothing loaded. -/
theorem addModel (h : g.Orderly) {d : ModelData} (hparents : d.parents = OrderedMap.empty)
    (hchildren : d.children = OrderedMap.empty) : (g.addModel d).Orderly := by
  have hloaded : ∀ n name c, ((g.addModel d).model n).children.get? name = some c →
      n ≠ g.nextModel ∧ (g.model n).children.get? name = some c := by
    intro n name c hc
    rw [model_addModel] at hc
    split at hc
    · rw [hchildren] at hc
      cases hc
    · rename_i hold
      exact ⟨hold, hc⟩
  refine ⟨fun n name p hp => ?_, fun n name c hc => ?_,
    fun n n' name other c hn hn' => h.apart n n' name other c (hloaded n name c hn).2
      (hloaded n' other c hn').2, fun n name c r hc hr => ?_⟩
  · rw [model_addModel] at hp ⊢
    split at hp
    · rw [hparents] at hp
      cases hp
    · rename_i hold
      rw [if_neg hold]
      exact h.parents n name p hp
  · obtain ⟨hold, hc⟩ := hloaded n name c hc
    rw [model_addModel, if_neg hold]
    exact h.children n name c hc
  · obtain ⟨hold, hc⟩ := hloaded n name c hc
    rw [model_addModel, if_neg hold] at hr
    exact h.fitted n name c r hc hr

/-- A parent is loaded where the model holds the foreign key. -/
theorem side_of_parent (h : g.Orderly) (hg : g.WellFormed) (hm : g.HasModel m) {name : String}
    {p : Model} {r : Resolved} (hp : (g.model m).parents.get? name = some p)
    (hr : g.registry.resolve (g.model m).modelType.name name = .ok r) : r.side = .parent :=
  (Resolved.single_of_holdsSingle ((hg.holdsSingle_eq hm hr).symm.trans (h.parents m name p hp))).1

end Orderly

end Graph

end RecordGraph
