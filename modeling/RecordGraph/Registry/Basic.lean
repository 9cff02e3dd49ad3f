/-
# Model types and their registry

A model type gives the records of one bundle their relationships and their rules. A registry
holds model types under distinct names and distinct bundles, and every relationship of a
registered type points at registered types that it may point at.
-/
import RecordGraph.OrderedMap
import RecordGraph.Relationship.Basic
import RecordGraph.Violation

namespace RecordGraph

/-- The description of the models of one bundle. -/
structure ModelType where
  /-- The name of the model type. -/
  name : String
  /-- The entity type of its records. -/
  entityType : String
  /-- The bundle of its records. -/
  bundle : String
  /-- Its relationships by name, in order of declaration. -/
  relationships : OrderedMap String Relationship
  /-- The fields that must not be blank. -/
  requiredFields : List String
  /-- Further rules; each reports what it finds wrong with a record. -/
  validators : List (Record → ViolationList)

namespace ModelType

/-- A model type without relationships and rules. -/
def new (name entityType bundle : String) : ModelType :=
  ⟨name, entityType, bundle, OrderedMap.empty, [], []⟩

instance : Inhabited ModelType := ⟨new "" "" ""⟩

/-- Declares a relationship; a second one of the same name takes the place of the first. -/
def declare (t : ModelType) (r : Relationship) : ModelType :=
  { t with relationships := t.relationships.insert r.name { r with source := t.name } }

/-- Requires a field. -/
def requireField (t : ModelType) (field : String) : ModelType :=
  { t with requiredFields := t.requiredFields ++ [field] }

/-- Adds a rule. -/
def addValidator (t : ModelType) (v : Record → ViolationList) : ModelType :=
  { t with validators := t.validators ++ [v] }

/-- Whether a relationship of the name is declared. -/
def hasRelationship (t : ModelType) (name : String) : Bool := t.relationships.contains name

/-- The relationship of a name. -/
def relationship (t : ModelType) (name : String) : Except Error Relationship :=
  match t.relationships.get? name with
  | some r => .ok r
  | none => .error (.relationshipNotDefined t.name name)

/-- Whether records of an entity type and bundle belong to the type. -/
def describes (t : ModelType) (entityType bundle : String) : Bool :=
  t.entityType = entityType && t.bundle = bundle

end ModelType

/-- Model types by name, in order of registration. -/
structure Registry where
  /-- The registered types. -/
  types : OrderedMap String ModelType
  deriving Inhabited

namespace Registry

/-- A registry without types. -/
def empty : Registry := ⟨OrderedMap.empty⟩

/-- The model type of a name. -/
def get (g : Registry) (name : String) : Except Error ModelType :=
  match g.types.get? name with
  | some t => .ok t
  | none => .error (.configuration (.unknownModelType name))

/-- Whether a model type of the name is registered. -/
def contains (g : Registry) (name : String) : Bool := g.types.contains name

/-- The model type that describes an entity type and bundle. -/
def typeForBundle? (g : Registry) (entityType bundle : String) : Option ModelType :=
  g.types.values.find? (·.describes entityType bundle)

/-- The model type that describes a record. -/
def typeForRecord? (g : Registry) (r : Record) : Option ModelType :=
  g.typeForBundle? r.entityType r.bundle

/-- Registers a type, unless its name or its bundle is taken. -/
def register (g : Registry) (t : ModelType) : Except Error Registry :=
  if g.contains t.name then .error (.configuration (.modelTypeTwice t.name))
  else
    match g.typeForBundle? t.entityType t.bundle with
    | some other => .error (.configuration (.bundleTaken t.entityType t.bundle other.name))
    | none => .ok ⟨g.types.insert t.name t⟩

/-- The entity types of the targets of a relationship, each once. -/
def targetEntityTypes (g : Registry) (r : Relationship) : Except Error (List String) :=
  r.targets.foldlM (fun found target =>
    match g.types.get? target with
    | none => .error (.configuration (.unknownTarget r.text target))
    | some far =>
      .ok (if found.contains far.entityType then found else found ++ [far.entityType])) []

/-- Whether the relationship has to stay within its entity type. -/
def staysWithin (r : Relationship) : Bool :=
  match r.kind with
  | .parent .. | .child .. => true
  | _ => false

/-- Checks where a relationship of a registered type points. -/
def checkRelationship (g : Registry) (t : ModelType) (r : Relationship) : Except Error Unit := do
  let entityTypes ← g.targetEntityTypes r
  if r.isPolymorphic && 1 < entityTypes.length then
    throw (.polymorphic (.severalEntityTypes r.text entityTypes))
  if staysWithin r && !entityTypes.all (· = t.entityType) then
    throw (.configuration (.leavesEntityType r.text t.entityType))

/-- Checks where all relationships of a registered type point. -/
def checkType (g : Registry) (t : ModelType) : Except Error Unit :=
  t.relationships.values.forM (g.checkRelationship t)

/-- The registry of some model types. -/
def build (types : List ModelType) : Except Error Registry := do
  let g ← types.foldlM register empty
  g.types.values.forM g.checkType
  return g

end Registry

end RecordGraph
