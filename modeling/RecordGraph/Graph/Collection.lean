/-
# Collections

Ordered sets of models, filed by key. Beside its members a collection keeps a snapshot of
those it was loaded or last saved with, so that saving can tell which ones were removed.

A collection admits models of one type, or, if it is polymorphic, models of one entity type,
which the first one decides. What is not admitted leaves the collection as it was.
-/
import RecordGraph.Graph.Model

namespace RecordGraph

variable {σ : Type}

namespace CollectionData

/-- Whether the collection admits models of several types. -/
def isPolymorphic (d : CollectionData) : Bool :=
  match d.membership with
  | .ofType _ => false
  | .ofEntity _ => true

/-- The one type of the members, unless there is a choice. -/
def modelType? (d : CollectionData) : Option ModelType :=
  match d.membership with
  | .ofType t => some t
  | .ofEntity _ => none

/-- The entity type of the members, once it is decided. -/
def entityType? (d : CollectionData) : Option String :=
  match d.membership with
  | .ofType t => some t.entityType
  | .ofEntity e => e

/-- The key under which a model is filed. -/
def keyOf? (d : CollectionData) (m : Model) : Option String :=
  (d.members.entries.find? fun e => e.2 = m).map Prod.fst

/-- Whether the model itself is a member. -/
def containsModel (d : CollectionData) (m : Model) : Bool := (d.keyOf? m).isSome

end CollectionData

namespace Collection

/-! ## Making collections -/

/-- An empty collection. -/
def make (s : Session) (membership : Membership) : Action σ Collection := do
  let g ← get
  set { g with
    collections := g.collections.push ⟨s, membership, OrderedMap.empty, OrderedMap.empty⟩ }
  return ⟨g.collections.size⟩

/-- An empty collection of a type. -/
def ofType (s : Session) (t : ModelType) : Action σ Collection := make s (.ofType t)

/-- An empty collection of an entity type, or of one that is still open. -/
def polymorphic (s : Session) (entityType : Option String) : Action σ Collection :=
  make s (.ofEntity entityType)

/-- An empty collection of the type of a name. -/
def forModelType (s : Session) (modelType : String) : Action σ Collection := do
  ofType s (← Action.ofExcept ((← get).registry.get modelType))

/-- An empty collection for the far models of a relationship. -/
def forRelationship (s : Session) (r : Resolved) : Action σ Collection := do
  match r.farTypes with
  | [] => throw (.configuration (.noTarget r.name))
  | far :: _ =>
    let t ← Action.ofExcept ((← get).registry.get far)
    if r.polymorphic then polymorphic s (some t.entityType) else ofType s t

/-! ## Reading -/

/-- The members. -/
def models (c : Collection) : Action σ (List Model) := return (← c.data).members.values

/-- The models of the snapshot. -/
def snapshotModels (c : Collection) : Action σ (List Model) := return (← c.data).snapshot.values

/-- The members with their keys. -/
def entries (c : Collection) : Action σ (List (String × Model)) :=
  return (← c.data).members.entries

/-- The identifiers of the stored members. -/
def ids (c : Collection) : Action σ (List String) := do
  return (← (← c.models).mapM Model.id?).filterMap fun id => id

/-- The records of the members. -/
def records (c : Collection) : Action σ (List Record) := do (← c.models).mapM Model.record

/-- Stored models of the snapshot whose key is no longer that of a member. -/
def modelsToDelete (c : Collection) : Action σ (List Model) := do
  let d ← c.data
  let g ← get
  return ((d.snapshot.entries.filter fun e => !d.members.contains e.1).map Prod.snd).filter
    fun m => !(g.model m).record.isNew

/-- Whether relationships of the name are declared by the type of the members. -/
def hasRelationship (c : Collection) (name : String) : Action σ Bool := do
  match (← c.data).modelType? with
  | some t => return t.hasRelationship name
  | none => throw (.polymorphic (.unsupported "has_relationship"))

/-- Refuses an operation that needs a collection of one type. -/
def requireSingleType (c : Collection) (operation : String) : Action σ Unit := do
  if (← c.data).isPolymorphic then throw (.polymorphic (.unsupported operation))

/-! ## Changing -/

/-- Checks that a model may come in; the first one of an open collection decides its entity
type. -/
def accept (c : Collection) (m : Model) : Action σ Unit := do
  let t ← m.modelType
  match (← c.data).membership with
  | .ofType own => if own.name ≠ t.name then throw (.invalidType own.name t.name)
  | .ofEntity none => c.update fun d => { d with membership := .ofEntity (some t.entityType) }
  | .ofEntity (some expected) =>
    if expected ≠ t.entityType then
      throw (.polymorphic (.foreignModel t.name (← m.key) t.entityType expected))

/-- Adds a member. -/
def put (c : Collection) (m : Model) : Action σ Unit := do
  c.accept m
  let key ← m.key
  c.update fun d => { d with members := d.members.insert key m }

/-- Adds a model to the snapshot. -/
def putSnapshot (c : Collection) (m : Model) : Action σ Unit := do
  c.accept m
  let key ← m.key
  c.update fun d => { d with snapshot := d.snapshot.insert key m }

/-- Adds a model that comes from the store, to the members and to the snapshot. -/
def putFetched (c : Collection) (m : Model) : Action σ Unit := do
  c.accept m
  let key ← m.key
  c.update fun d =>
    { d with snapshot := d.snapshot.insert key m, members := d.members.insert key m }

/-- Adds a model of a fresh record. -/
def putNew [RecordStore σ] (c : Collection) : Action σ Model := do
  let d ← c.data
  match d.modelType? with
  | none => throw (.polymorphic (.unsupported "put_new"))
  | some t =>
    let m ← Model.forgeFresh d.session t
    c.put m
    return m

/-- Removes the member filed under a key. -/
def remove (c : Collection) (key : String) : Action σ (Option Model) := do
  let m := (← c.data).members.get? key
  c.update fun d => { d with members := d.members.erase key }
  return m

/-- Removes a model, wherever it is filed. -/
def removeModel (c : Collection) (m : Model) : Action σ (Option Model) := do
  match (← c.data).keyOf? m with
  | none => return none
  | some key => c.remove key

/-- Takes the members as the new snapshot. -/
def markSaved (c : Collection) : Action σ Unit :=
  c.update fun d => { d with snapshot := d.members }

/-- Sorts the members by the first value at a path. The snapshot keeps its order. -/
def sortByField (c : Collection) (path : String) (direction : SortDirection) : Action σ Unit := do
  let g ← get
  let record (e : String × Model) : Record := (g.model e.2).record
  c.update fun d =>
    { d with members :=
        d.members.sortBy fun a b => Record.precedes [(path, direction)] (record a) (record b) }

/-- Files a stored member under its identifier instead of an old key, in the snapshot too.
Answers whether the old key belongs to a stored member. -/
def replaceOldKey (c : Collection) (oldKey : String) : Action σ Bool := do
  match (← c.data).members.get? oldKey with
  | none => return false
  | some m =>
    match ← m.id? with
    | none => return false
    | some newKey =>
      if newKey ≠ oldKey then
        let rename (key : String) : String := if key = oldKey then newKey else key
        c.update fun d =>
          { d with
            members := d.members.renameKeys rename
            snapshot := d.snapshot.renameKeys rename }
      return true

/-- Loads records and wraps them as members. All must be of the type's bundle. -/
def forgeByIds [RecordStore σ] (s : Session) (modelType : String) (ids : List String) :
    Action σ Collection := do
  let t ← Action.ofExcept ((← get).registry.get modelType)
  let c ← ofType s t
  let records ← Action.call (RecordStore.loadMultiple t.entityType ids)
  records.forM fun r => do
    if r.bundle ≠ t.bundle then throw (.invalidType t.bundle r.bundle)
    c.putFetched (← Model.forge s t r)
  return c

end Collection

namespace Model

/-- The loaded collection under a name, or else a new empty one, given what the relationship
amounts to. -/
def childrenOr (m : Model) (name : String) (r : Resolved) : Action σ Collection := do
  match ← m.cachedChildren? name with
  | some c => return c
  | none =>
    let c ← Collection.forRelationship (← m.data).session r
    m.setChildren name c
    return c

/-- The loaded collection under a name, or else a new empty one. -/
def children (m : Model) (name : String) : Action σ Collection := do
  match ← m.cachedChildren? name with
  | some c => return c
  | none => m.childrenOr name (← m.resolve name)

end Model

end RecordGraph
