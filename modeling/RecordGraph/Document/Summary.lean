/-
# Summaries

Documents that report what things amount to and that are not read back: a failure by its kind
and message, a relationship with everything its registry knows of it, the settings of a query,
the contents of a violation list. Where a part of a summary could not be worked out, the
failure stands in its place.
-/
import RecordGraph.Document.Query
import RecordGraph.Document.Record
import RecordGraph.Document.Registry
import RecordGraph.Graph.Description

namespace RecordGraph

/-- Writes a failure. What a reader of documents says of its input is not written. -/
def Error.toDocument : Error → Value
  | .serialization _ => Document.record [("error", .text "Serialization")]
  | e => Document.record [("error", .text e.kindName), ("message", .text e.message)]

/-- A value, or the failure in its place. -/
def Document.orError : Except Error Value → Value
  | .ok v => v
  | .error e => e.toDocument

open Document

/-- Writes a sort order. -/
def SortDirection.sortDocument (s : String × SortDirection) : Value :=
  Value.texts [s.1, s.2.text]

/-- Writes a row of aggregates in the order of its columns. -/
def AggregateRow.toDocument (r : AggregateRow) : Value :=
  .list (r.entries.map fun e => .list [.text e.1, e.2])

/-- Writes rows of aggregates. -/
def AggregateRow.toDocuments (rs : List AggregateRow) : Value :=
  .list (rs.map AggregateRow.toDocument)

/-- Writes a violation as its path and message. -/
def Violation.toPair (v : Violation) : Value := Value.texts [v.path, v.message]

/-- Writes violations as pairs. -/
def ViolationList.toPairs (vs : ViolationList) : Value := .list (vs.map Violation.toPair)

/-- Writes the violations of a list, their text and their number. -/
def ViolationList.summary (vs : ViolationList) : Value :=
  Document.record
    [("list", vs.toPairs), ("text", .text vs.text), ("len", .int vs.length),
     ("empty", .bool vs.isEmpty)]

/-- Writes what a relationship is and what a registry makes of it. -/
def Relationship.summary (r : Relationship) (g : Registry) : Value :=
  Document.record
    [("text", .text r.text), ("name", .text r.name), ("source", .text r.source),
     ("kind", .text r.kindName), ("side", .text r.side.text),
     ("cascade", .bool r.cascadingDelete), ("polymorphic", .bool r.isPolymorphic),
     ("parent_access", .bool r.isParentAccess), ("model_type", Value.ofText? r.modelType?),
     ("poly_types", Value.texts r.polymorphicModelTypes), ("targets", Value.texts r.targets),
     ("foreign_key", orError (r.foreignKey.map fun k => Value.texts [k.field, k.column])),
     ("multiple", orError ((g.relationshipCardinality r).map fun c => .bool (c = .multiple))),
     ("condition", orError ((g.relationshipCondition r).map Condition.toDocument)),
     ("query", orError do
       let q ← g.relationshipQuery r
       return .list [.bool q.wrapping.isPolymorphic, (← q.query.build).root.toDocument])]

/-- Writes what a model type declares. -/
def ModelType.summary (t : ModelType) : Value :=
  Document.record
    [("name", .text t.name), ("entity", .text t.entityType), ("bundle", .text t.bundle),
     ("rels", Value.texts t.relationships.keys), ("required", Value.texts t.requiredFields),
     ("validators", .int t.validators.length), ("debug", .text t.description)]

/-- Writes the parts of a query. -/
def Query.summary (q : Query) : Value :=
  Document.record
    [("entity", .text q.entityType), ("base", .list (q.baseConditions.map Condition.toDocument)),
     ("conditions", .list (q.conditions.map Condition.toDocument)),
     ("logic", Value.ofText? q.logic), ("conjunction", .text q.conjunction.text),
     ("groups", .int q.groups.length),
     ("sorts", .list (q.sorts.entries.map SortDirection.sortDocument)),
     ("range", StoreQuery.rangeDocument q.range), ("policy", Value.ofText? q.accessPolicy)]

end RecordGraph
