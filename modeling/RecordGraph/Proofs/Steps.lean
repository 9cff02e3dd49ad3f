/-
# Single steps on a graph

What each basic action makes of a graph when it answers: reading changes nothing, writing
changes one cell, and making an object adds one cell behind all others. The equations are
stated once here; the modules on fetching cite them and never unfold an action of this size.
-/
import RecordGraph.Graph.Fetching
import RecordGraph.Proofs.Returns

namespace RecordGraph

variable {σ α : Type}

/-! ## Cells -/

namespace Cells

/-- Of two writes to one cell the second one stays. -/
theorem set_set [Inhabited α] (c : Cells α) (i : Nat) (a b : α) :
    (c.set i a).set i b = c.set i b := by
  unfold set
  by_cases hi : i < c.items.size
  · simp [hi]
  · have hsize : (c.items ++ Array.replicate (i - c.items.size) default).size = i := by
      simp only [Array.size_append, Array.size_replicate]
      omega
    have hlast : i < ((c.items ++ Array.replicate (i - c.items.size) default).push a).size := by
      rw [Array.size_push, hsize]
      exact Nat.lt_succ_self i
    rw [dif_neg hi, dif_pos hlast, dif_neg hi]
    congr 1
    rw [Array.set_push, dif_neg (by omega)]

/-- A cell that was written to is there. -/
theorem lt_size_set [Inhabited α] (c : Cells α) (i : Nat) (a : α) : i < (c.set i a).size := by
  by_cases hi : i < c.size
  · rwa [size_set_of_lt hi]
  · have hi' : ¬ i < c.items.size := hi
    simp only [set, size, dif_neg hi', Array.size_push, Array.size_append, Array.size_replicate]
    omega

/-- Writing never takes cells away. -/
theorem size_le_size_set [Inhabited α] (c : Cells α) (i : Nat) (a : α) :
    c.size ≤ (c.set i a).size := by
  by_cases hi : i < c.size
  · exact Nat.le_of_eq (size_set_of_lt hi a).symm
  · have hmade := c.lt_size_set i a
    omega

/-- Writing what a cell holds changes nothing. -/
theorem set_get [Inhabited α] {c : Cells α} {i : Nat} (hi : i < c.size) :
    c.set i (c.get i) = c := by
  have hi' : i < c.items.size := hi
  simp [set, get, hi']

/-- Overwriting the last cell is making it with the other content. -/
theorem set_push [Inhabited α] (c : Cells α) (a b : α) : (c.push a).set c.size b = c.push b := by
  unfold set push size
  rw [dif_pos (by simp), Array.set_push, dif_neg (Nat.lt_irrefl _)]

end Cells

/-! ## Objects of a graph -/

namespace Graph

/-- The model was made in this graph. -/
def HasModel (g : Graph σ) (m : Model) : Prop := m.number < g.models.size

/-- The collection was made in this graph. -/
def HasCollection (g : Graph σ) (c : Collection) : Prop := c.number < g.collections.size

instance (g : Graph σ) (m : Model) : Decidable (g.HasModel m) :=
  inferInstanceAs (Decidable (m.number < g.models.size))

instance (g : Graph σ) (c : Collection) : Decidable (g.HasCollection c) :=
  inferInstanceAs (Decidable (c.number < g.collections.size))

/-- The graph with one more model. -/
def addModel (g : Graph σ) (d : ModelData) : Graph σ := { g with models := g.models.push d }

/-- The graph with one more collection. -/
def addCollection (g : Graph σ) (d : CollectionData) : Graph σ :=
  { g with collections := g.collections.push d }

/-- The model that is made next. -/
def nextModel (g : Graph σ) : Model := ⟨g.models.size⟩

/-- The collection that is made next. -/
def nextCollection (g : Graph σ) : Collection := ⟨g.collections.size⟩

@[simp] theorem model_addModel (g : Graph σ) (d : ModelData) (m : Model) :
    (g.addModel d).model m = if m = g.nextModel then d else g.model m := by
  cases m
  simp [model, addModel, nextModel]

@[simp] theorem collection_addCollection (g : Graph σ) (d : CollectionData) (c : Collection) :
    (g.addCollection d).collection c = if c = g.nextCollection then d else g.collection c := by
  cases c
  simp [collection, addCollection, nextCollection]

@[simp] theorem collection_addModel (g : Graph σ) (d : ModelData) (c : Collection) :
    (g.addModel d).collection c = g.collection c := rfl

@[simp] theorem model_addCollection (g : Graph σ) (d : CollectionData) (m : Model) :
    (g.addCollection d).model m = g.model m := rfl

@[simp] theorem model_setSession (g : Graph σ) (s : Session) (d : SessionData) (m : Model) :
    (g.setSession s d).model m = g.model m := rfl

@[simp] theorem collection_setSession (g : Graph σ) (s : Session) (d : SessionData)
    (c : Collection) : (g.setSession s d).collection c = g.collection c := rfl

/-- Overwriting a collection that was just made is making it with the other content. -/
theorem setCollection_addCollection (g : Graph σ) (d e : CollectionData) :
    (g.addCollection d).setCollection g.nextCollection e = g.addCollection e := by
  simp [setCollection, addCollection, nextCollection, Cells.set_push]

theorem setCollection_setCollection (g : Graph σ) (c : Collection) (d e : CollectionData) :
    (g.setCollection c d).setCollection c e = g.setCollection c e := by
  simp [setCollection, Cells.set_set]

theorem setModel_setModel (g : Graph σ) (m : Model) (d e : ModelData) :
    (g.setModel m d).setModel m e = g.setModel m e := by
  simp [setModel, Cells.set_set]

theorem setModel_self {g : Graph σ} {m : Model} (h : g.HasModel m) :
    g.setModel m (g.model m) = g := by
  simp [setModel, model, Cells.set_get h]

theorem setCollection_self {g : Graph σ} {c : Collection} (h : g.HasCollection c) :
    g.setCollection c (g.collection c) = g := by
  simp [setCollection, collection, Cells.set_get h]

theorem hasModel_setModel {g : Graph σ} {m : Model} {d : ModelData} (hm : g.HasModel m)
    (n : Model) : (g.setModel m d).HasModel n ↔ g.HasModel n := by
  rw [HasModel, setModel, Cells.size_set_of_lt hm, HasModel]

theorem hasCollection_setCollection {g : Graph σ} {c : Collection} {d : CollectionData}
    (hc : g.HasCollection c) (e : Collection) :
    (g.setCollection c d).HasCollection e ↔ g.HasCollection e := by
  rw [HasCollection, setCollection, Cells.size_set_of_lt hc, HasCollection]

theorem hasModel_addModel (g : Graph σ) (d : ModelData) (m : Model) :
    (g.addModel d).HasModel m ↔ g.HasModel m ∨ m = g.nextModel := by
  obtain ⟨m⟩ := m
  simp only [HasModel, addModel, Cells.size_push, nextModel, Model.mk.injEq]
  omega

theorem hasCollection_addCollection (g : Graph σ) (d : CollectionData) (c : Collection) :
    (g.addCollection d).HasCollection c ↔ g.HasCollection c ∨ c = g.nextCollection := by
  obtain ⟨c⟩ := c
  simp only [HasCollection, addCollection, Cells.size_push, nextCollection, Collection.mk.injEq]
  omega

theorem not_hasModel_nextModel (g : Graph σ) : ¬ g.HasModel g.nextModel :=
  Nat.lt_irrefl _

theorem not_hasCollection_nextCollection (g : Graph σ) : ¬ g.HasCollection g.nextCollection :=
  Nat.lt_irrefl _

theorem hasCollection_nextCollection (g : Graph σ) (d : CollectionData) :
    (g.addCollection d).HasCollection g.nextCollection := by
  simp [HasCollection, nextCollection, addCollection]

theorem HasModel.ne_nextModel {g : Graph σ} {m : Model} (h : g.HasModel m) :
    m ≠ g.nextModel := by
  rintro rfl
  exact g.not_hasModel_nextModel h

theorem HasCollection.ne_nextCollection {g : Graph σ} {c : Collection} (h : g.HasCollection c) :
    c ≠ g.nextCollection := by
  rintro rfl
  exact g.not_hasCollection_nextCollection h

end Graph

/-! ## Reading and writing -/

@[simp] theorem returns_ofExcept {r : Except Error α} {g g' : Graph σ} {x : α} :
    Returns (Action.ofExcept r) g x g' ↔ g' = g ∧ r = .ok x := by
  unfold Returns Action.ofExcept
  simp [eq_comm, and_comm]

@[simp] theorem returns_call {c : Call σ α} {g g' : Graph σ} {x : α} :
    Returns (Action.call c) g x g' ↔
      ∃ store, c g.store = (.ok x, store) ∧ g' = { g with store := store } := by
  unfold Returns Action.call
  rcases c g.store with ⟨answer, store⟩
  simp [eq_comm, and_assoc]

/-- A call answers what the store answers and leaves what the store leaves. -/
theorem run_call {c : Call σ α} {g : Graph σ} {answer : Except Error α} {store : σ}
    (h : c g.store = (answer, store)) : Action.call c g = (answer, { g with store := store }) := by
  rw [Action.call, h]

@[simp] theorem Session.returns_data {s : Session} {g g' : Graph σ} {d : SessionData} :
    Returns s.data g d g' ↔ g' = g ∧ d = g.session s := by
  simp [data, and_assoc]

@[simp] theorem Session.returns_config {s : Session} {g g' : Graph σ} {c : Config} :
    Returns s.config g c g' ↔ g' = g ∧ c = (g.session s).config := by
  simp [config, and_assoc]

@[simp] theorem Session.returns_update {s : Session} {f : SessionData → SessionData}
    {g g' : Graph σ} {u : Unit} :
    Returns (s.update f) g u g' ↔ g' = g.setSession s (f (g.session s)) := by
  simp [update]

namespace Model

variable {m : Model} {g g' : Graph σ}

@[simp] theorem returns_data {d : ModelData} : Returns m.data g d g' ↔ g' = g ∧ d = g.model m := by
  simp [data, and_assoc]

@[simp] theorem returns_update {f : ModelData → ModelData} {u : Unit} :
    Returns (m.update f) g u g' ↔ g' = g.setModel m (f (g.model m)) := by
  simp [update]

@[simp] theorem returns_key {k : String} : Returns m.key g k g' ↔ g' = g ∧ k = (g.model m).key := by
  simp [key, and_assoc]

@[simp] theorem returns_modelType {t : ModelType} :
    Returns m.modelType g t g' ↔ g' = g ∧ t = (g.model m).modelType := by
  simp [modelType, and_assoc]

@[simp] theorem returns_record {r : Record} :
    Returns m.record g r g' ↔ g' = g ∧ r = (g.model m).record := by
  simp [record, and_assoc]

@[simp] theorem returns_id {id : Option String} :
    Returns m.id? g id g' ↔ g' = g ∧ id = (g.model m).record.id := by
  simp [id?, and_assoc]

@[simp] theorem returns_isNew {b : Bool} :
    Returns m.isNew g b g' ↔ g' = g ∧ b = (g.model m).record.isNew := by
  simp [isNew, and_assoc]

@[simp] theorem returns_cachedParent {name : String} {p : Option Model} :
    Returns (m.cachedParent? name) g p g' ↔ g' = g ∧ p = (g.model m).parents.get? name := by
  simp [cachedParent?, and_assoc]

@[simp] theorem returns_cachedChildren {name : String} {c : Option Collection} :
    Returns (m.cachedChildren? name) g c g' ↔ g' = g ∧ c = (g.model m).children.get? name := by
  simp [cachedChildren?, and_assoc]

@[simp] theorem returns_resolve {name : String} {r : Resolved} :
    Returns (m.resolve name) g r g' ↔
      g' = g ∧ g.registry.resolve (g.model m).modelType.name name = .ok r := by
  simp [resolve, and_assoc]

@[simp] theorem returns_parentIds {name : String} {ids : List String} :
    Returns (m.parentIds name) g ids g' ↔ g' = g ∧ ∃ r k,
      (g.model m).modelType.relationship name = .ok r ∧ r.foreignKey = .ok k ∧
        ids = (g.model m).record.referenceIds k.field k.column := by
  simp only [parentIds, returns_bind, returns_data, returns_ofExcept, returns_pure]
  constructor
  · rintro ⟨_, _, ⟨rfl, rfl⟩, r, _, ⟨rfl, hr⟩, k, _, ⟨rfl, hk⟩, rfl, rfl⟩
    exact ⟨rfl, r, k, hr, hk, rfl⟩
  · rintro ⟨rfl, r, k, hr, hk, rfl⟩
    exact ⟨_, _, ⟨rfl, rfl⟩, r, _, ⟨rfl, hr⟩, k, _, ⟨rfl, hk⟩, rfl, rfl⟩

@[simp] theorem returns_setParent {name : String} {p : Model} {u : Unit} :
    Returns (m.setParent name p) g u g' ↔
      g' = g.setModel m { g.model m with parents := (g.model m).parents.insert name p } := by
  simp [setParent]

@[simp] theorem returns_removeParent {name : String} {u : Unit} :
    Returns (m.removeParent name) g u g' ↔
      g' = g.setModel m { g.model m with parents := (g.model m).parents.erase name } := by
  simp [removeParent]

@[simp] theorem returns_setChildren {name : String} {c : Collection} {u : Unit} :
    Returns (m.setChildren name c) g u g' ↔
      g' = g.setModel m { g.model m with children := (g.model m).children.insert name c } := by
  simp [setChildren]

end Model

/-! ## Collections -/

namespace Collection

variable {c : Collection} {m : Model} {g g' : Graph σ}

@[simp] theorem returns_data {d : CollectionData} :
    Returns c.data g d g' ↔ g' = g ∧ d = g.collection c := by
  simp [data, and_assoc]

@[simp] theorem returns_update {f : CollectionData → CollectionData} {u : Unit} :
    Returns (c.update f) g u g' ↔ g' = g.setCollection c (f (g.collection c)) := by
  simp [update]

@[simp] theorem returns_models {ms : List Model} :
    Returns c.models g ms g' ↔ g' = g ∧ ms = (g.collection c).members.values := by
  simp [models, and_assoc]

@[simp] theorem returns_make {s : Session} {membership : Membership} :
    Returns (make s membership) g c g' ↔ c = g.nextCollection ∧
      g' = g.addCollection ⟨s, membership, OrderedMap.empty, OrderedMap.empty⟩ := by
  simp only [make, returns_bind, returns_get, returns_set, returns_pure]
  constructor
  · rintro ⟨_, _, ⟨rfl, rfl⟩, _, _, rfl, rfl, rfl⟩
    exact ⟨rfl, rfl⟩
  · rintro ⟨rfl, rfl⟩
    exact ⟨g, g, ⟨rfl, rfl⟩, ⟨⟩, _, rfl, rfl, rfl⟩

/-- Making a collection for a relationship adds an empty one. -/
theorem returns_forRelationship {s : Session} {r : Resolved}
    (h : Returns (forRelationship s r) g c g') : c = g.nextCollection ∧ ∃ membership,
      g' = g.addCollection ⟨s, membership, OrderedMap.empty, OrderedMap.empty⟩ := by
  unfold forRelationship at h
  cases hfar : r.farTypes with
  | nil => simp [hfar] at h
  | cons far rest =>
      simp only [hfar, returns_bind, returns_get, returns_ofExcept] at h
      obtain ⟨_, _, ⟨rfl, rfl⟩, t, _, ⟨rfl, ht⟩, h⟩ := h
      by_cases hpoly : r.polymorphic = true
      · rw [if_pos hpoly, polymorphic, returns_make] at h
        exact ⟨h.1, _, h.2⟩
      · rw [if_neg hpoly, ofType, returns_make] at h
        exact ⟨h.1, _, h.2⟩

/-- Letting a model in changes at most what the collection admits. -/
theorem returns_accept {u : Unit} (h : Returns (c.accept m) g u g') : g' = g ∨
    ∃ membership, g' = g.setCollection c { g.collection c with membership := membership } := by
  simp only [accept, returns_bind, Model.returns_modelType, returns_data, and_assoc,
    exists_eq_left] at h
  cases hmembership : (g.collection c).membership with
  | ofType own =>
      simp only [hmembership] at h
      split at h
      · exact absurd h returns_throw
      · exact .inl (returns_pure.mp h).1
  | ofEntity entityType =>
      cases entityType with
      | none =>
          simp only [hmembership, returns_update] at h
          exact .inr ⟨_, h⟩
      | some expected =>
          simp only [hmembership] at h
          split at h
          · simp at h
          · exact .inl (returns_pure.mp h).1

/-- A write to the collection after a model was let in is one write from the start. -/
theorem eq_setCollection_of_accept {u : Unit} {between : Graph σ}
    (haccept : Returns (c.accept m) g u between) (f : CollectionData → CollectionData)
    (hf : ∀ d membership, ∃ other,
      f { d with membership := membership } = { f d with membership := other }) :
    ∃ membership, between.setCollection c (f (between.collection c)) =
      g.setCollection c { f (g.collection c) with membership := membership } := by
  rcases returns_accept haccept with rfl | ⟨membership, rfl⟩
  · exact ⟨(f (between.collection c)).membership, rfl⟩
  · obtain ⟨other, hother⟩ := hf (g.collection c) membership
    refine ⟨other, ?_⟩
    rw [Graph.setCollection_setCollection, Graph.collection_setCollection, if_pos rfl, hother]

theorem model_of_accept {u : Unit} {between : Graph σ}
    (haccept : Returns (c.accept m) g u between) : between.model m = g.model m := by
  rcases returns_accept haccept with rfl | ⟨membership, rfl⟩
  · rfl
  · rfl

/-- Putting a model files it under its key among the members. -/
theorem returns_put {u : Unit} (h : Returns (c.put m) g u g') :
    ∃ membership, g' = g.setCollection c
      { g.collection c with
        membership := membership
        members := (g.collection c).members.insert (g.model m).key m } := by
  simp only [put, returns_bind, Model.returns_key, returns_update, and_assoc,
    exists_eq_left] at h
  obtain ⟨⟨⟩, between, haccept, rfl⟩ := h
  rw [model_of_accept haccept]
  exact eq_setCollection_of_accept haccept
    (fun d => { d with members := d.members.insert (g.model m).key m })
    fun d membership => ⟨membership, rfl⟩

/-- Putting a model to the snapshot files it under its key there. -/
theorem returns_putSnapshot {u : Unit} (h : Returns (c.putSnapshot m) g u g') :
    ∃ membership, g' = g.setCollection c
      { g.collection c with
        membership := membership
        snapshot := (g.collection c).snapshot.insert (g.model m).key m } := by
  simp only [putSnapshot, returns_bind, Model.returns_key, returns_update, and_assoc,
    exists_eq_left] at h
  obtain ⟨⟨⟩, between, haccept, rfl⟩ := h
  rw [model_of_accept haccept]
  exact eq_setCollection_of_accept haccept
    (fun d => { d with snapshot := d.snapshot.insert (g.model m).key m })
    fun d membership => ⟨membership, rfl⟩

/-- Putting a model from the store files it under its key, in the snapshot too. -/
theorem returns_putFetched {u : Unit} (h : Returns (c.putFetched m) g u g') :
    ∃ membership, g' = g.setCollection c
      { g.collection c with
        membership := membership
        members := (g.collection c).members.insert (g.model m).key m
        snapshot := (g.collection c).snapshot.insert (g.model m).key m } := by
  simp only [putFetched, returns_bind, Model.returns_key, returns_update, and_assoc,
    exists_eq_left] at h
  obtain ⟨⟨⟩, between, haccept, rfl⟩ := h
  rw [model_of_accept haccept]
  exact eq_setCollection_of_accept haccept
    (fun d => { d with
      members := d.members.insert (g.model m).key m
      snapshot := d.snapshot.insert (g.model m).key m })
    fun d membership => ⟨membership, rfl⟩

end Collection

/-! ## Loaded collections -/

namespace Model

variable {m : Model} {c : Collection} {g g' : Graph σ} {name : String}

/-- What is loaded under a name is taken; else a new, empty collection is loaded there. -/
theorem returns_childrenOr {r : Resolved} (h : Returns (m.childrenOr name r) g c g') :
    ((g.model m).children.get? name = some c ∧ g' = g) ∨
    ((g.model m).children.get? name = none ∧ c = g.nextCollection ∧ ∃ membership,
      g' = (g.addCollection
          ⟨(g.model m).session, membership, OrderedMap.empty, OrderedMap.empty⟩).setModel m
        { g.model m with children := (g.model m).children.insert name c }) := by
  simp only [childrenOr, returns_bind, returns_cachedChildren, and_assoc, exists_eq_left] at h
  cases hcached : (g.model m).children.get? name with
  | some d =>
      simp only [hcached, returns_pure] at h
      exact .inl ⟨by rw [h.2], h.1⟩
  | none =>
      simp only [hcached, returns_bind, returns_data, returns_setChildren, returns_pure,
        and_assoc, exists_eq_left] at h
      obtain ⟨fresh, _, hmade, ⟨⟩, rfl, rfl⟩ := h
      obtain ⟨hfresh, membership, rfl⟩ := Collection.returns_forRelationship hmade
      exact .inr ⟨rfl, hfresh, membership, rfl⟩

theorem returns_childrenOr_of_loaded (r : Resolved)
    (h : (g.model m).children.get? name = some c) : Returns (m.childrenOr name r) g c g := by
  rw [childrenOr, returns_bind]
  exact ⟨some c, g, returns_cachedChildren.mpr ⟨rfl, h.symm⟩, returns_pure.mpr ⟨rfl, rfl⟩⟩

theorem returns_childrenOr_of_made {r : Resolved} {membership : Membership}
    (hnone : (g.model m).children.get? name = none)
    (hmade : Returns (Collection.forRelationship (g.model m).session r) g g.nextCollection
      (g.addCollection
        ⟨(g.model m).session, membership, OrderedMap.empty, OrderedMap.empty⟩)) :
    Returns (m.childrenOr name r) g g.nextCollection ((g.addCollection
        ⟨(g.model m).session, membership, OrderedMap.empty, OrderedMap.empty⟩).setModel m
      { g.model m with children := (g.model m).children.insert name g.nextCollection }) := by
  rw [childrenOr, returns_bind]
  refine ⟨none, g, returns_cachedChildren.mpr ⟨rfl, hnone.symm⟩, ?_⟩
  simp only [returns_bind, returns_data, returns_setChildren, returns_pure]
  exact ⟨_, g, ⟨rfl, rfl⟩, _, _, hmade, (), _, rfl, rfl, rfl⟩

/-- The same for a collection that is asked for by name alone. Where a new one is made, the
relationship resolves. -/
theorem returns_children (h : Returns (m.children name) g c g') :
    ((g.model m).children.get? name = some c ∧ g' = g) ∨
    ((g.model m).children.get? name = none ∧ c = g.nextCollection ∧
      (∃ r, g.registry.resolve (g.model m).modelType.name name = .ok r) ∧ ∃ membership,
        g' = (g.addCollection
            ⟨(g.model m).session, membership, OrderedMap.empty, OrderedMap.empty⟩).setModel m
          { g.model m with children := (g.model m).children.insert name c }) := by
  simp only [children, returns_bind, returns_cachedChildren, and_assoc, exists_eq_left] at h
  cases hcached : (g.model m).children.get? name with
  | some d =>
      simp only [hcached, returns_pure] at h
      exact .inl ⟨by rw [h.2], h.1⟩
  | none =>
      simp only [hcached, returns_bind, returns_resolve, and_assoc, exists_eq_left] at h
      obtain ⟨r, hresolve, h⟩ := h
      rcases returns_childrenOr h with ⟨hsome, -⟩ | ⟨-, hmade⟩
      · rw [hcached] at hsome
        exact absurd hsome (by simp)
      · exact .inr ⟨rfl, hmade.1, ⟨r, hresolve⟩, hmade.2⟩

theorem returns_children_of_loaded (h : (g.model m).children.get? name = some c) :
    Returns (m.children name) g c g := by
  rw [children, returns_bind]
  exact ⟨some c, g, returns_cachedChildren.mpr ⟨rfl, h.symm⟩, returns_pure.mpr ⟨rfl, rfl⟩⟩

theorem returns_children_of_none {r : Resolved} (hnone : (g.model m).children.get? name = none)
    (hresolve : g.registry.resolve (g.model m).modelType.name name = .ok r)
    (h : Returns (m.childrenOr name r) g c g') : Returns (m.children name) g c g' := by
  rw [children, returns_bind]
  refine ⟨none, g, returns_cachedChildren.mpr ⟨rfl, hnone.symm⟩, ?_⟩
  exact returns_bind.mpr ⟨r, g, returns_resolve.mpr ⟨rfl, hresolve⟩, h⟩

end Model

/-! ## The records that a query answers -/

section Queries

variable {g g' : Graph σ}

/-- What the store may see of a query, or why it may not. -/
theorem Session.prepare_eq (s : Session) (q : StoreQuery) (g : Graph σ) : s.prepare q g =
    (if q.hasTag accessPolicyTag then
      match q.accessPolicy with
      | none => .error (.configuration .policyMissing)
      | some name =>
        match (g.session s).policies.get? name with
        | none => .error (.configuration (.unknownPolicy name))
        | some policy => policy.apply q
    else .ok q, g) := by
  have hdata : (s.data : Action σ SessionData) g = (.ok (g.session s), g) :=
    Session.returns_data.mpr ⟨rfl, rfl⟩
  unfold prepare
  split
  · cases q.accessPolicy with
    | none => rfl
    | some name =>
        simp only [run_bind, hdata]
        cases (g.session s).policies.get? name with
        | none => rfl
        | some policy => rfl
  · rfl

/-- An access policy looks at the query and touches nothing. -/
theorem Session.returns_prepare {s : Session} {q prepared : StoreQuery}
    (h : Returns (s.prepare q) g prepared g') : g' = g := by
  rw [Returns, prepare_eq] at h
  exact (congrArg Prod.snd h).symm

/-- A query without the tag for access policies reaches the store as it is. -/
theorem Session.returns_prepare_of_untagged {s : Session} {q prepared : StoreQuery}
    (huntagged : q.hasTag accessPolicyTag = false) :
    Returns (s.prepare q) g prepared g' ↔ g' = g ∧ prepared = q := by
  unfold prepare
  rw [if_neg (by simp [huntagged]), returns_pure]

variable [RecordStore σ]

/-- Running a query changes nothing but the store. -/
theorem Query.returns_fetch {q : Query} {s : Session} {rs : List Record}
    (h : Returns (q.fetch s) g rs g') : ∃ store, g' = { g with store := store } := by
  simp only [fetch, fetchIds, Session.execute, returns_bind, returns_ofExcept] at h
  obtain ⟨ids, afterQuery, ⟨built, _, ⟨rfl, -⟩, prepared, _, hprepared, hexecute⟩, h⟩ := h
  obtain rfl := Session.returns_prepare hprepared
  obtain ⟨store, -, rfl⟩ := returns_call.mp hexecute
  split at h
  · exact ⟨store, (returns_pure.mp h).1⟩
  · obtain ⟨after, -, rfl⟩ := returns_call.mp h
    exact ⟨after, rfl⟩

end Queries

end RecordGraph
