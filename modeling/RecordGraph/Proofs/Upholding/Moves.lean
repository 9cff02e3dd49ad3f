/-
# What a graph can go through

All that a call does to a graph it does in small writes: the store goes on, a session is opened
or counts a placeholder, a model is forged or written to, a collection is made or written to.
`Step` says what each of these writes may be, once and for all. What every write keeps is kept
by every call, and so by every history.

Some of it rests on the store: a record that has an identifier has to be saved under it.
-/
import Mathlib.Logic.Relation
import RecordGraph.Graph.Collection
import RecordGraph.Proofs.Steps

namespace RecordGraph

variable {σ : Type}

/-- The second record is stored where the first one is, if that is stored. -/
structure Record.StaysAt (r r' : Record) : Prop where
  id : ∀ id, r.id = some id → r'.id = some id
  entityType : r'.entityType = r.entityType

theorem Record.StaysAt.refl (r : Record) : r.StaysAt r :=
  ⟨fun _ h => h, rfl⟩

/-- Writing a foreign key leaves a record where it is. -/
theorem Record.staysAt_setReferenceIds (r : Record) (field column : String) (ids : List String)
    (cardinality : Cardinality) : r.StaysAt (r.setReferenceIds field column ids cardinality) := by
  unfold setReferenceIds
  split <;> exact ⟨fun _ h => h, rfl⟩

/-- What is saved comes back under the identifier that it had, if it had one, and in its entity
type. -/
def RecordStore.KeepsIds [RecordStore σ] (Kept : σ → Prop) : Prop :=
  ∀ r (s : σ) stored, Kept s → (RecordStore.save r s).1 = .ok stored → r.StaysAt stored

/-! ## Forging, seen from outside -/

namespace Graph

/-- The graph after a record was wrapped under a key, and the model remembered by its session. -/
def wrapped (g : Graph σ) (s : Session) (t : ModelType) (key : String) (r : Record) : Graph σ :=
  (g.addModel ⟨s, t, key, r, OrderedMap.empty, OrderedMap.empty⟩).setSession s
    { g.session s with forged := (g.session s).forged ++ [g.nextModel] }

/-- The graph after a session counted one more placeholder. -/
def counted (g : Graph σ) (s : Session) : Graph σ :=
  g.setSession s { g.session s with placeholders := (g.session s).placeholders + 1 }

/-- A placeholder of a session by its number. -/
def placeholder (g : Graph σ) (s : Session) (n : Nat) : String :=
  (g.session s).config.placeholderPrefix ++ toString n

end Graph

namespace Model

variable {s : Session} {t : ModelType} {r : Record} {g : Graph σ}

theorem forge_of_id {id : String} (h : r.id = some id) :
    forge s t r g = (.ok g.nextModel, g.wrapped s t id r) := by
  unfold forge
  rw [h]
  rfl

theorem forge_of_new (h : r.id = none) : forge s t r g =
    (.ok g.nextModel,
      (g.counted s).wrapped s t (g.placeholder s ((g.session s).placeholders + 1)) r) := by
  unfold forge
  rw [h]
  rfl

end Model

/-! ## Writes to a collection -/

/-- The key of an entry once `new` stands for `old`. -/
def rekeyed (old new key : String) : String := if key = old then new else key

/-- The entry of the old key is renamed, in the snapshot too. -/
def CollectionData.rekey (d : CollectionData) (old new : String) : CollectionData :=
  { d with
    members := d.members.renameKeys (rekeyed old new)
    snapshot := d.snapshot.renameKeys (rekeyed old new) }

/-- Models of the type are let in, and nothing has to be decided for it. -/
def Membership.Admits (membership : Membership) (t : ModelType) : Prop :=
  match membership with
  | .ofType own => own.name = t.name
  | .ofEntity entityType => entityType = some t.entityType

instance Membership.decidableAdmits (membership : Membership) (t : ModelType) :
    Decidable (membership.Admits t) :=
  match membership with
  | .ofType own => inferInstanceAs (Decidable (own.name = t.name))
  | .ofEntity entityType => inferInstanceAs (Decidable (entityType = some t.entityType))

/-- What may become of what a collection holds, in one write. -/
inductive Graph.Changes (g : Graph σ) (d : CollectionData) : CollectionData → Prop where
  /-- The first model decides the entity type. -/
  | decided {m : Model} (hm : g.HasModel m) (hopen : d.membership = .ofEntity none) :
      g.Changes d { d with
        membership := .ofEntity (some (g.model m).modelType.entityType) }
  /-- A model that is let in becomes a member under its key. -/
  | joined {m : Model} (hm : g.HasModel m) (hadmits : d.membership.Admits (g.model m).modelType) :
      g.Changes d { d with members := d.members.insert (g.model m).key m }
  /-- A model that is let in comes into the snapshot under its key. -/
  | noted {m : Model} (hm : g.HasModel m) (hadmits : d.membership.Admits (g.model m).modelType) :
      g.Changes d { d with snapshot := d.snapshot.insert (g.model m).key m }
  /-- A model that is let in comes into both. -/
  | fetched {m : Model} (hm : g.HasModel m)
      (hadmits : d.membership.Admits (g.model m).modelType) :
      g.Changes d { d with
        snapshot := d.snapshot.insert (g.model m).key m
        members := d.members.insert (g.model m).key m }
  /-- A member is removed. -/
  | removed (key : String) : g.Changes d { d with members := d.members.erase key }
  /-- The members are put into another order. -/
  | sorted (le : String × Model → String × Model → Bool) :
      g.Changes d { d with members := d.members.sortBy le }
  /-- The members become the snapshot. -/
  | saved : g.Changes d { d with snapshot := d.members }
  /-- The key of a stored member is replaced by its identifier. -/
  | rekeyed {m : Model} {old new : String} (hm : d.members.get? old = some m)
      (hid : (g.model m).record.id = some new) : g.Changes d (d.rekey old new)

/-! ## Writes -/

namespace Graph

/-- One write. -/
inductive Step (g : Graph σ) : Graph σ → Prop where
  /-- The store goes on. -/
  | store (store : σ) : g.Step { g with store := store }
  /-- A session is opened. -/
  | opened (config : Config) :
      g.Step { g with sessions := g.sessions.push ⟨config, 0, OrderedMap.empty, []⟩ }
  /-- A session keeps its settings and takes no placeholder back. -/
  | session (s : Session) (d : SessionData) (hconfig : d.config = (g.session s).config)
      (hcount : (g.session s).placeholders ≤ d.placeholders) : g.Step (g.setSession s d)
  /-- A record is wrapped. -/
  | forged (s : Session) (t : ModelType) (r : Record) : g.Step (Model.forge s t r g).2
  /-- A model stays what it is, and its record where it is stored. -/
  | model {m : Model} {d : ModelData} (hm : g.HasModel m)
      (hsession : d.session = (g.model m).session)
      (htype : d.modelType = (g.model m).modelType) (hkey : d.key = (g.model m).key)
      (hstays : (g.model m).record.StaysAt d.record) : g.Step (g.setModel m d)
  /-- An empty collection is made. -/
  | made (s : Session) (membership : Membership) :
      g.Step (g.addCollection ⟨s, membership, OrderedMap.empty, OrderedMap.empty⟩)
  /-- A collection is written to. -/
  | collection {c : Collection} {d : CollectionData} (hc : g.HasCollection c)
      (hchange : g.Changes (g.collection c) d) : g.Step (g.setCollection c d)

/-- A write makes an empty collection, or leaves a collection as it is, or writes to it as it may. -/
theorem Step.collection_cases {g g' : Graph σ} (h : g.Step g') {c : Collection}
    (hc : g'.HasCollection c) :
    (g.HasCollection c ∧
      (g'.collection c = g.collection c ∨ g.Changes (g.collection c) (g'.collection c))) ∨
    (¬ g.HasCollection c ∧ ∃ s membership,
      g'.collection c = ⟨s, membership, OrderedMap.empty, OrderedMap.empty⟩) := by
  cases h with
  | store store => exact .inl ⟨hc, .inl rfl⟩
  | opened config => exact .inl ⟨hc, .inl rfl⟩
  | session s d hconfig hcount => exact .inl ⟨hc, .inl rfl⟩
  | forged s t r =>
      cases hid : r.id with
      | some id =>
          rw [Model.forge_of_id hid] at hc ⊢
          exact .inl ⟨hc, .inl rfl⟩
      | none =>
          rw [Model.forge_of_new hid] at hc ⊢
          exact .inl ⟨hc, .inl rfl⟩
  | model hm hsession htype hkey hstays => exact .inl ⟨hc, .inl rfl⟩
  | made s membership =>
      rw [hasCollection_addCollection] at hc
      rw [collection_addCollection]
      split
      · rename_i hnext
        exact .inr ⟨hnext ▸ not_hasCollection_nextCollection g, s, membership, rfl⟩
      · rename_i hother
        exact .inl ⟨hc.resolve_right hother, .inl rfl⟩
  | collection hother hchange =>
      have hmade := (hasCollection_setCollection hother c).mp hc
      rw [collection_setCollection]
      split
      · rename_i hsame
        subst hsame
        exact .inl ⟨hmade, .inr hchange⟩
      · exact .inl ⟨hmade, .inl rfl⟩

/-- What holds of empty collections and is kept by all that may be written to one holds of all
collections after a write if it did before. -/
theorem Step.forall_collections {g g' : Graph σ} {P : Graph σ → CollectionData → Prop}
    (h : g.Step g')
    (hnew : ∀ s membership, P g' ⟨s, membership, OrderedMap.empty, OrderedMap.empty⟩)
    (hchange : ∀ c d, g.HasCollection c → g.Changes (g.collection c) d → P g d)
    (hlater : ∀ d, P g d → P g' d) (hall : ∀ c, g.HasCollection c → P g (g.collection c)) :
    ∀ c, g'.HasCollection c → P g' (g'.collection c) := by
  intro c hc
  obtain ⟨hmade, hsame | hwritten⟩ | ⟨-, s, membership, hempty⟩ := h.collection_cases hc
  · rw [hsame]
    exact hlater _ (hall c hmade)
  · exact hlater _ (hchange c _ hmade hwritten)
  · rw [hempty]
    exact hnew s membership

/-- Any number of writes. -/
abbrev Moves (g g' : Graph σ) : Prop := Relation.ReflTransGen Step g g'

/-- What every write keeps, every call keeps. -/
theorem Moves.induct {I : Graph σ → Prop} (hstep : ∀ g g' : Graph σ, g.Step g' → I g → I g')
    {g g' : Graph σ} (h : g.Moves g') (hg : I g) : I g' := by
  induction h with
  | refl => exact hg
  | tail _ hlast ih => exact hstep _ _ hlast ih

end Graph

end RecordGraph
