/-
# Resolved relationships

A declared relationship names its counterpart. Resolving it looks the counterpart up, and
tells on which side the foreign key is, where it is stored, how many identifiers it holds,
which model types are on the far side and how the way back is called there.

The relationships of a model type are resolved together: if one of them cannot be resolved,
none is.
-/
import RecordGraph.Registry.Basic

namespace RecordGraph

/-- What a relationship amounts to once its counterpart is known. -/
structure Resolved where
  /-- The name of the relationship. -/
  name : String
  /-- The side on which the declaring model stands. -/
  side : RelationshipSide
  /-- The foreign key, wherever it is stored. -/
  foreignKey : ForeignKey
  /-- How many identifiers the foreign key holds. -/
  cardinality : Cardinality
  /-- Whether the far side is any of several model types. -/
  polymorphic : Bool
  /-- The model types on the far side. -/
  farTypes : List String
  /-- The name of the way back, by model type on the far side. -/
  inverses : OrderedMap String String
  deriving Inhabited

namespace Resolved

/-- The name of the way back on a model type. -/
def inverseOn? (r : Resolved) (modelType : String) : Option String := r.inverses.get? modelType

/-- Whether the declaring model holds at most one far model. -/
def holdsSingle (r : Resolved) : Bool := r.side = .parent && r.cardinality = .single

end Resolved

namespace Registry

/-- The name of the first relationship of `far` that is declared as the inverse of a
relationship of `owner`. -/
def findInverse (g : Registry) (far owner name : String) : Except Error (Option String) := do
  let far ← g.get far
  return (far.relationships.values.find? (·.isInverseOf owner name)).map (·.name)

/-- The relationship that another one names as its counterpart. -/
def counterpart (g : Registry) (modelType name : String) : Except Error Relationship := do
  (← g.get modelType).relationship name

/-- The ways back from several far types, where there are any. -/
def inversesFrom (g : Registry) (owner name : String) (fars : List String) :
    Except Error (OrderedMap String String) :=
  fars.foldlM (fun found far => do
    match ← g.findInverse far owner name with
    | none => return found
    | some inverse => return found.insert far inverse) OrderedMap.empty

/-- What one relationship of a type amounts to. -/
def resolveRelationship (g : Registry) (owner : ModelType) (r : Relationship) :
    Except Error Resolved :=
  match r.kind with
  | .field key target cardinality _ => do
    let inverses ← g.inversesFrom owner.name r.name target.modelTypes
    return ⟨r.name, .parent, key, cardinality, r.isPolymorphic, target.modelTypes, inverses⟩
  | .parent key modelType => do
    let inverses ← g.inversesFrom owner.name r.name [modelType]
    return ⟨r.name, .parent, key, .single, false, [modelType], inverses⟩
  | .referenced modelType fieldRelationship => do
    let other ← g.counterpart modelType fieldRelationship
    match other.kind with
    | .field key target cardinality _ =>
      if target.modelTypes.contains owner.name then
        return ⟨r.name, .child, key, cardinality, false, [modelType],
          OrderedMap.empty.insert modelType fieldRelationship⟩
      else
        throw (.configuration (.notPointingAt modelType fieldRelationship owner.name))
    | _ => throw (.invalidRelationshipType other.name "FieldRelationship" other.kindName)
  | .child modelType parentRelationship => do
    let other ← g.counterpart modelType parentRelationship
    match other.kind with
    | .parent key _ =>
      return ⟨r.name, .child, key, .single, false, [modelType],
        OrderedMap.empty.insert modelType parentRelationship⟩
    | _ => throw (.invalidRelationshipType other.name "ParentRelationship" other.kindName)

/-- All relationships of a model type, resolved. -/
def resolveAll (g : Registry) (modelType : String) : Except Error (OrderedMap String Resolved) := do
  let t ← g.get modelType
  t.relationships.values.foldlM (fun found r => do
    return found.insert r.name (← g.resolveRelationship t r)) OrderedMap.empty

/-- One relationship of a model type, resolved. -/
def resolve (g : Registry) (modelType name : String) : Except Error Resolved := do
  match (← g.resolveAll modelType).get? name with
  | some r => return r
  | none => throw (.relationshipNotDefined modelType name)

end Registry

/-- A registry that remembers which model types it has resolved. -/
structure ResolvingRegistry where
  /-- The registry. -/
  registry : Registry
  /-- The model types resolved so far, each once. -/
  resolved : List String
  deriving Inhabited

namespace ResolvingRegistry

/-- A registry that has resolved nothing yet. -/
def of (g : Registry) : ResolvingRegistry := ⟨g, []⟩

/-- Resolves a model type. The answer does not depend on what is remembered; a type that
cannot be resolved is not remembered. -/
def visit (m : ResolvingRegistry) (modelType : String) : ResolvingRegistry :=
  if m.resolved.contains modelType then m
  else
    match m.registry.resolveAll modelType with
    | .ok _ => { m with resolved := m.resolved ++ [modelType] }
    | .error _ => m

end ResolvingRegistry

end RecordGraph
