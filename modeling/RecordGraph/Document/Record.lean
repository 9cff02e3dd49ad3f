/-
# Records, relationships and violations as documents
-/
import RecordGraph.Document.Basic
import RecordGraph.Relationship.Basic
import RecordGraph.Violation

namespace RecordGraph

open Document

namespace Record

/-- Writes a record. -/
def toDocument (r : Record) : Value :=
  Document.record
    [("id", Value.ofText? r.id), ("entity_type", .text r.entityType), ("bundle", .text r.bundle),
     ("fields", .object r.fields)]

/-- Reads a record. -/
def ofDocument? (v : Value) : Option Record := do
  match ← fields? ["id", "entity_type", "bundle", "fields"] v with
  | [id, some entityType, some bundle, some (.object fields)] =>
    return ⟨← optional? text? id, ← text? entityType, ← text? bundle, fields⟩
  | _ => none

end Record

namespace Cardinality

/-- The name in a document. -/
def documentName : Cardinality → String
  | .single => "Single"
  | .multiple => "Multiple"

/-- Reads a cardinality. -/
def ofDocument? (v : Value) : Option Cardinality := named? [.single, .multiple] documentName v

end Cardinality

namespace RelationshipTarget

/-- Writes a target. -/
def toDocument : RelationshipTarget → Value
  | .model t => chosen "Model" (.text t)
  | .polymorphic ts => chosen "Polymorphic" (Value.texts ts)

/-- Reads a target. -/
def ofDocument? (v : Value) : Option RelationshipTarget := do
  match ← choice? v with
  | ("Model", some t) => return .model (← text? t)
  | ("Polymorphic", some ts) => return .polymorphic (← list? text? ts)
  | _ => none

end RelationshipTarget

namespace RelationshipKind

/-- Writes a kind of relationship. -/
def toDocument : RelationshipKind → Value
  | .field key target cardinality parentAccess =>
    chosen "Field" (Document.record
      [("field", .text key.field), ("column", .text key.column), ("target", target.toDocument),
       ("cardinality", .text cardinality.documentName), ("parent_access", .bool parentAccess)])
  | .referenced modelType fieldRelationship =>
    chosen "Referenced" (Document.record
      [("model_type", .text modelType), ("field_relationship", .text fieldRelationship)])
  | .parent key modelType =>
    chosen "Parent" (Document.record
      [("field", .text key.field), ("column", .text key.column), ("model_type", .text modelType)])
  | .child modelType parentRelationship =>
    chosen "Child" (Document.record
      [("model_type", .text modelType), ("parent_relationship", .text parentRelationship)])

/-- Reads a kind of relationship. -/
def ofDocument? (v : Value) : Option RelationshipKind := do
  match ← choice? v with
  | ("Field", some contents) =>
    match ← fields? ["field", "column", "target", "cardinality", "parent_access"] contents with
    | [some name, some column, some target, some cardinality, some parentAccess] =>
      return .field ⟨← text? name, ← text? column⟩ (← RelationshipTarget.ofDocument? target)
        (← Cardinality.ofDocument? cardinality) (← bool? parentAccess)
    | _ => none
  | ("Referenced", some contents) =>
    match ← fields? ["model_type", "field_relationship"] contents with
    | [some t, some r] => return .referenced (← text? t) (← text? r)
    | _ => none
  | ("Parent", some contents) =>
    match ← fields? ["field", "column", "model_type"] contents with
    | [some name, some column, some t] =>
      return .parent ⟨← text? name, ← text? column⟩ (← text? t)
    | _ => none
  | ("Child", some contents) =>
    match ← fields? ["model_type", "parent_relationship"] contents with
    | [some t, some r] => return .child (← text? t) (← text? r)
    | _ => none
  | _ => none

end RelationshipKind

namespace Relationship

/-- Writes a relationship. -/
def toDocument (r : Relationship) : Value :=
  Document.record
    [("name", .text r.name), ("source", .text r.source),
     ("cascading_delete", .bool r.cascadingDelete), ("kind", r.kind.toDocument)]

/-- Reads a relationship. -/
def ofDocument? (v : Value) : Option Relationship := do
  match ← fields? ["name", "source", "cascading_delete", "kind"] v with
  | [some name, some source, some cascading, some kind] =>
    return ⟨← text? name, ← text? source, ← bool? cascading, ← RelationshipKind.ofDocument? kind⟩
  | _ => none

end Relationship

namespace Violation

/-- Writes a violation. -/
def toDocument (v : Violation) : Value :=
  Document.record [("path", .text v.path), ("message", .text v.message)]

/-- Reads a violation. -/
def ofDocument? (v : Value) : Option Violation := do
  match ← fields? ["path", "message"] v with
  | [some path, some message] => return ⟨← text? path, ← text? message⟩
  | _ => none

end Violation

namespace ViolationList

/-- Writes violations. -/
def toDocument (vs : ViolationList) : Value :=
  Document.record [("violations", .list (vs.map Violation.toDocument))]

/-- Reads violations. -/
def ofDocument? (v : Value) : Option ViolationList := do
  match ← fields? ["violations"] v with
  | [some violations] => list? Violation.ofDocument? violations
  | _ => none

end ViolationList

end RecordGraph
