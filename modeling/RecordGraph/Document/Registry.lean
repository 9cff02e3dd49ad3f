/-
# Settings and resolved relationships as documents
-/
import RecordGraph.Config
import RecordGraph.Document.Basic
import RecordGraph.Registry.Resolution

namespace RecordGraph

/-- Writes settings. -/
def Config.toDocument (c : Config) : Value :=
  Document.record
    [("prefix", .text c.placeholderPrefix), ("conjunction", .text c.defaultConjunction.text),
     ("batch", (c.fetchBatchSize.map fun n => .int n).getD .null), ("trace", .bool c.traceQueries)]

/-- The written form of a side. -/
def RelationshipSide.text : RelationshipSide → String
  | .parent => "parent"
  | .child => "child"

/-- Writes what a relationship amounts to. -/
def Resolved.toDocument (r : Resolved) : Value :=
  Document.record
    [("name", .text r.name), ("side", .text r.side.text), ("key", .text r.foreignKey.path),
     ("multiple", .bool (r.cardinality = .multiple)), ("polymorphic", .bool r.polymorphic),
     ("far", Value.texts r.farTypes),
     ("inverses", .list (r.inverses.entries.map fun e => Value.texts [e.1, e.2]))]

end RecordGraph
