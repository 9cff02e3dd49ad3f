/-
# Models

A model wraps a record and keeps what was loaded along its relationships: a parent where the
record holds a single key, a collection everywhere else. Its key is fixed when it is forged.
-/
import RecordGraph.Graph.Session

namespace RecordGraph

variable {σ : Type}

namespace Model

/-! ## Forging -/

/-- Wraps a record as a model of a type. A record without identifier gets a placeholder
key. -/
def forge (s : Session) (t : ModelType) (r : Record) : Action σ Model := do
  let key ← match r.id with
    | some id => pure id
    | none => s.nextPlaceholder
  let g ← get
  let m : Model := ⟨g.models.size⟩
  set { g with models := g.models.push ⟨s, t, key, r, OrderedMap.empty, OrderedMap.empty⟩ }
  s.update fun d => { d with forged := d.forged ++ [m] }
  return m

/-- Wraps a record as a model of the type that describes it. -/
def forgeRecord (s : Session) (r : Record) : Action σ Model := do
  match (← get).registry.typeForRecord? r with
  | some t => forge s t r
  | none => throw (.configuration (.noModelTypeFor r.entityType r.bundle))

/-- Wraps a fresh record as a model of a type. -/
def forgeFresh [RecordStore σ] (s : Session) (t : ModelType) : Action σ Model := do
  forge s t (← Action.call (RecordStore.create t.entityType t.bundle))

/-- Wraps a fresh record as a model of the type of a name. -/
def forgeNew [RecordStore σ] (s : Session) (modelType : String) : Action σ Model := do
  forgeFresh s (← Action.ofExcept ((← get).registry.get modelType))

/-- Loads a record and wraps it, unless there is none. It has to be of the type's bundle. -/
def forgeById [RecordStore σ] (s : Session) (modelType id : String) : Action σ (Option Model) := do
  let t ← Action.ofExcept ((← get).registry.get modelType)
  match ← Action.call (RecordStore.load t.entityType id) with
  | none => return none
  | some r =>
    if r.bundle ≠ t.bundle then
      throw (.invalidType (t.entityType ++ ":" ++ t.bundle) (r.entityType ++ ":" ++ r.bundle))
    return some (← forge s t r)

/-! ## The record -/

/-- The key. -/
def key (m : Model) : Action σ String := return (← m.data).key

/-- The type. -/
def modelType (m : Model) : Action σ ModelType := return (← m.data).modelType

/-- The record. -/
def record (m : Model) : Action σ Record := return (← m.data).record

/-- The identifier of the record, once it is stored. -/
def id? (m : Model) : Action σ (Option String) := return (← m.record).id

/-- Whether the record was never stored. -/
def isNew (m : Model) : Action σ Bool := return (← m.record).isNew

/-- Changes the record. -/
def updateRecord (m : Model) (f : Record → Record) : Action σ Unit :=
  m.update fun d => { d with record := f d.record }

/-- Writes a field of the record. -/
def setField (m : Model) (field : String) (v : Value) : Action σ Unit :=
  m.updateRecord (·.set field v)

/-! ## Relationships -/

/-- Whether a relationship of the name is declared. -/
def hasRelationship (m : Model) (name : String) : Action σ Bool :=
  return (← m.modelType).hasRelationship name

/-- What a relationship amounts to. -/
def resolve (m : Model) (name : String) : Action σ Resolved := do
  let t ← m.modelType
  Action.ofExcept ((← get).registry.resolve t.name name)

/-- The loaded parent under a name. -/
def cachedParent? (m : Model) (name : String) : Action σ (Option Model) :=
  return (← m.data).parents.get? name

/-- The loaded collection under a name. -/
def cachedChildren? (m : Model) (name : String) : Action σ (Option Collection) :=
  return (← m.data).children.get? name

/-- Loads a parent. -/
def setParent (m : Model) (name : String) (parent : Model) : Action σ Unit :=
  m.update fun d => { d with parents := d.parents.insert name parent }

/-- Unloads a parent. -/
def removeParent (m : Model) (name : String) : Action σ Unit :=
  m.update fun d => { d with parents := d.parents.erase name }

/-- Loads a collection. -/
def setChildren (m : Model) (name : String) (c : Collection) : Action σ Unit :=
  m.update fun d => { d with children := d.children.insert name c }

/-- Unloads whatever is loaded under a name. -/
def clearRelationship (m : Model) (name : String) : Action σ Unit :=
  m.update fun d =>
    { d with parents := d.parents.erase name, children := d.children.erase name }

/-- Those of the names under which a declared relationship is loaded. -/
def loadedRelationships (m : Model) (names : List String) : Action σ (List String) := do
  let d ← m.data
  return names.filter fun name =>
    d.modelType.hasRelationship name && (d.parents.contains name || d.children.contains name)

/-- The identifiers in the foreign key that a relationship holds. -/
def parentIds (m : Model) (name : String) : Action σ (List String) := do
  let d ← m.data
  let r ← Action.ofExcept (d.modelType.relationship name)
  let k ← Action.ofExcept r.foreignKey
  return d.record.referenceIds k.field k.column

/-- The first identifier in the foreign key that a relationship holds. -/
def parentId? (m : Model) (name : String) : Action σ (Option String) :=
  return (← m.parentIds name).head?

/-- Writes a foreign key. -/
def setReferenceIds (m : Model) (k : ForeignKey) (ids : List String) (c : Cardinality) :
    Action σ Unit :=
  m.updateRecord (·.setReferenceIds k.field k.column ids c)

/-- Adds an identifier to a foreign key; a single key is overwritten. -/
def addReferenceId (m : Model) (k : ForeignKey) (id : String) (c : Cardinality) :
    Action σ Unit :=
  m.updateRecord fun r =>
    let ids := match c with
      | .single => [id]
      | .multiple =>
        let ids := r.referenceIds k.field k.column
        if ids.contains id then ids else ids ++ [id]
    r.setReferenceIds k.field k.column ids c

/-- Takes an identifier out of a foreign key. -/
def removeReferenceId (m : Model) (k : ForeignKey) (id : String) (c : Cardinality) :
    Action σ Unit :=
  m.updateRecord fun r =>
    r.setReferenceIds k.field k.column ((r.referenceIds k.field k.column).filter (· ≠ id)) c

end Model

end RecordGraph
