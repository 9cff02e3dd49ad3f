/-
# Queries as documents

The written forms of conditions, predicates, store queries and aggregations.
-/
import RecordGraph.Document.Basic
import RecordGraph.StoreQuery.Aggregation
import RecordGraph.StoreQuery.Basic

namespace RecordGraph

open Document

namespace Conjunction

/-- The name in a document. -/
def documentName : Conjunction → String
  | .and => "And"
  | .or => "Or"

/-- Reads a conjunction. -/
def ofDocument? (v : Value) : Option Conjunction := named? [.and, .or] documentName v

end Conjunction

namespace Operator

/-- The name in a document. -/
def documentName : Operator → String
  | .equal => "Equal"
  | .notEqual => "NotEqual"
  | .greaterThan => "GreaterThan"
  | .greaterThanOrEqual => "GreaterThanOrEqual"
  | .lessThan => "LessThan"
  | .lessThanOrEqual => "LessThanOrEqual"
  | .like => "Like"
  | .contains => "Contains"
  | .startsWith => "StartsWith"
  | .endsWith => "EndsWith"
  | .isIn => "In"
  | .notIn => "NotIn"
  | .between => "Between"

/-- Reads an operator. -/
def ofDocument? (v : Value) : Option Operator := named? all documentName v

end Operator

namespace SortDirection

/-- The name in a document. -/
def documentName : SortDirection → String
  | .ascending => "Asc"
  | .descending => "Desc"

/-- Reads a direction. -/
def ofDocument? (v : Value) : Option SortDirection :=
  named? [.ascending, .descending] documentName v

end SortDirection

namespace AggregateFunction

/-- The name in a document. -/
def documentName : AggregateFunction → String
  | .count => "Count"
  | .sum => "Sum"
  | .min => "Min"
  | .max => "Max"
  | .avg => "Avg"

/-- Reads a function. -/
def ofDocument? (v : Value) : Option AggregateFunction :=
  named? [.count, .sum, .min, .max, .avg] documentName v

end AggregateFunction

namespace Condition

/-- Writes a condition. -/
def toDocument (c : Condition) : Value :=
  Document.record
    [("field", .text c.field), ("operator", .text c.operator.documentName), ("value", c.value),
     ("field_may_be_absent", .bool c.fieldMayBeAbsent)]

/-- Reads a condition. -/
def ofDocument? (v : Value) : Option Condition := do
  match ← fields? ["field", "operator", "value", "field_may_be_absent"] v with
  | [some field, some operator, some value, some absent] =>
    return ⟨← text? field, ← Operator.ofDocument? operator, value, ← bool? absent⟩
  | _ => none

end Condition

mutual

/-- Writes a predicate. -/
def Predicate.toDocument : Predicate → Value
  | .compare field op value =>
    chosen "Compare" (Document.record
      [("field", .text field), ("operator", .text op.documentName), ("value", value)])
  | .absent field => chosen "NotExists" (Document.record [("field", .text field)])
  | .group c members =>
    chosen "Group" (Document.record
      [("conjunction", .text c.documentName), ("predicates", .list (Predicate.toDocuments members))])

/-- Writes predicates. -/
def Predicate.toDocuments : List Predicate → List Value
  | [] => []
  | p :: rest => p.toDocument :: Predicate.toDocuments rest

end

namespace PredicateGroup

/-- Writes a group of predicates. -/
def toDocument (g : PredicateGroup) : Value :=
  Document.record
    [("conjunction", .text g.conjunction.documentName),
     ("predicates", .list (Predicate.toDocuments g.members))]

end PredicateGroup

/-- Reads a group of predicates, given how its members are read. -/
def PredicateGroup.ofFields? (member : Value → Option Predicate) (v : Value) :
    Option PredicateGroup := do
  match ← fields? ["conjunction", "predicates"] v with
  | [some c, some members] =>
    return ⟨← Conjunction.ofDocument? c, ← list? member members⟩
  | _ => none

/-- Reads a predicate of at most the given depth. -/
def Predicate.ofDocumentWithin? : (depth : Nat) → Value → Option Predicate
  | 0, _ => none
  | depth + 1, v => do
    match ← choice? v with
    | ("Compare", contents) =>
      match ← fields? ["field", "operator", "value"] (← contents? contents) with
      | [some field, some op, some value] =>
        return .compare (← text? field) (← Operator.ofDocument? op) value
      | _ => none
    | ("NotExists", contents) =>
      match ← fields? ["field"] (← contents? contents) with
      | [some field] => return .absent (← text? field)
      | _ => none
    | ("Group", some contents) =>
      return (← PredicateGroup.ofFields? (Predicate.ofDocumentWithin? depth) contents).toPredicate
    | _ => none

/-- Reads a predicate. No predicate lies deeper than the values of its document. -/
def Predicate.ofDocument? (v : Value) : Option Predicate :=
  Predicate.ofDocumentWithin? v.depth v

/-- Reads a group of predicates. -/
def PredicateGroup.ofDocument? (v : Value) : Option PredicateGroup :=
  PredicateGroup.ofFields? Predicate.ofDocument? v

namespace StoreQuery

/-- Writes the range of a query. -/
def rangeDocument : Option (Nat × Nat) → Value
  | none => .null
  | some (start, length) => .list [.int start, .int length]

/-- Writes a store query. -/
def toDocument (q : StoreQuery) : Value :=
  Document.record
    [("entity_type", .text q.entityType), ("root", q.root.toDocument),
     ("sorts", .list (q.sorts.map fun s => .list [.text s.1, .text s.2.documentName])),
     ("range", rangeDocument q.range), ("count_only", .bool q.countOnly),
     ("tags", Value.texts q.tags), ("access_policy", Value.ofText? q.accessPolicy)]

/-- Reads a store query. -/
def ofDocument? (v : Value) : Option StoreQuery := do
  match ← fields?
    ["entity_type", "root", "sorts", "range", "count_only", "tags", "access_policy"] v with
  | [some entityType, some root, some sorts, range, some countOnly, some tags, policy] =>
    return {
      entityType := ← text? entityType
      root := ← PredicateGroup.ofDocument? root
      sorts := ← list? (pair? text? SortDirection.ofDocument?) sorts
      range := ← optional? (pair? nat? nat?) range
      countOnly := ← bool? countOnly
      tags := (← list? text? tags).foldl (fun tags t => insertText t tags) []
      accessPolicy := ← optional? text? policy }
  | _ => none

end StoreQuery

namespace Aggregate

/-- Writes a computed column. -/
def toDocument (a : Aggregate) : Value :=
  Document.record
    [("field", .text a.field), ("function", .text a.function.documentName),
     ("alias", .text a.label)]

/-- Reads a computed column. -/
def ofDocument? (v : Value) : Option Aggregate := do
  match ← fields? ["field", "function", "alias"] v with
  | [some field, some function, some label] =>
    return ⟨← text? field, ← AggregateFunction.ofDocument? function, ← text? label⟩
  | _ => none

end Aggregate

namespace Aggregation

/-- Writes an aggregation. -/
def toDocument (a : Aggregation) : Value :=
  Document.record
    [("aggregates", .list (a.aggregates.map Aggregate.toDocument)),
     ("group_by", Value.texts a.groupBy)]

/-- Reads an aggregation. -/
def ofDocument? (v : Value) : Option Aggregation := do
  match ← fields? ["aggregates", "group_by"] v with
  | [some aggregates, some groupBy] =>
    return ⟨← list? Aggregate.ofDocument? aggregates, ← list? text? groupBy⟩
  | _ => none

end Aggregation

end RecordGraph
