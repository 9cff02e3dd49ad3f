/-
# Queries for models

A query together with the model types that its records are wrapped in. With one model type
the query selects that type's bundle and every record becomes a model of the type. With
several, which share an entity type, it selects all their bundles, and a record becomes a
model of the type that describes its bundle; a record of another bundle becomes none.
-/
import RecordGraph.Query.Basic
import RecordGraph.Registry.Resolution

namespace RecordGraph

/-- How the records of a query become models. -/
inductive Wrapping where
  /-- All as one model type. -/
  | one (t : ModelType)
  /-- Each as the model type of its bundle. -/
  | several (ts : List ModelType)
  deriving Inhabited

namespace Wrapping

/-- Whether there is a choice of model types. -/
def isPolymorphic : Wrapping → Bool
  | .one _ => false
  | .several _ => true

/-- The model types to wrap in. -/
def types : Wrapping → List ModelType
  | .one t => [t]
  | .several ts => ts

/-- The model type that a record is wrapped in. -/
def typeFor? (w : Wrapping) (r : Record) : Option ModelType :=
  match w with
  | .one t => some t
  | .several ts => ts.find? fun t => t.bundle = r.bundle

end Wrapping

/-- A query and what its records become. -/
structure ModelQuery where
  /-- How the records become models. -/
  wrapping : Wrapping
  /-- The query. -/
  query : Query
  deriving Inhabited

namespace ModelQuery

/-- The query for models of one type. -/
def ofType (t : ModelType) : ModelQuery := ⟨.one t, Query.ofBundle t.entityType t.bundle⟩

/-- The query for models of several types of one entity type. -/
def ofTypes (ts : List ModelType) : Except Error ModelQuery :=
  match ts with
  | [] => .error (.invalidQuery .noModelTypes)
  | first :: _ =>
    match ts.find? (·.entityType ≠ first.entityType) with
    | some other =>
      .error (.polymorphic (.foreignModelType other.name other.entityType first.entityType))
    | none =>
      .ok ⟨.several ts,
        (Query.new first.entityType).addBase
          (Condition.inList bundleField (ts.map fun t => .text t.bundle))⟩

/-- The same model query with another query. -/
def map (q : ModelQuery) (f : Query → Query) : ModelQuery := { q with query := f q.query }

end ModelQuery

namespace Registry

/-- The condition on the far records of a relationship, with no identifiers yet. From the
parent side the far records are looked up by identifier, from the child side by their
foreign key. -/
def relationshipCondition (g : Registry) (r : Relationship) : Except Error Condition := do
  let resolved ← g.resolve r.source r.name
  let path := match resolved.side with
    | .parent => idField
    | .child => resolved.foreignKey.path
  return (Condition.inList path []).required

/-- The query for the far models of a relationship. -/
def relationshipQuery (g : Registry) (r : Relationship) : Except Error ModelQuery := do
  let resolved ← g.resolve r.source r.name
  let types ← resolved.farTypes.mapM g.get
  match types with
  | [t] => return ModelQuery.ofType t
  | ts => ModelQuery.ofTypes ts

/-- How many identifiers the foreign key of a relationship holds. -/
def relationshipCardinality (g : Registry) (r : Relationship) : Except Error Cardinality := do
  return (← g.resolve r.source r.name).cardinality

end Registry

end RecordGraph
