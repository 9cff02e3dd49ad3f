/-
# Aggregates

What is computed over groups of selected records: a function of all values of a field,
under an alias, for every group of records that agree in the first values of some fields.
-/
import RecordGraph.OrderedMap
import RecordGraph.Record.Basic
import RecordGraph.Value.Comparison

namespace RecordGraph

/-- A function of several values. -/
inductive AggregateFunction where
  | count
  | sum
  | min
  | max
  | avg
  deriving DecidableEq, Repr, Inhabited

/-- One computed column. -/
structure Aggregate where
  /-- The path whose values are used. -/
  field : String
  /-- What is computed. -/
  function : AggregateFunction
  /-- The name of the result. -/
  label : String
  deriving DecidableEq, Repr, Inhabited

/-- The computed columns and the fields to group by. -/
structure Aggregation where
  /-- The computed columns, in order. -/
  aggregates : List Aggregate
  /-- The paths to group by, in order. -/
  groupBy : List String
  deriving DecidableEq, Repr, Inhabited

/-- A row of results, in the order in which its columns were first written. -/
abbrev AggregateRow := OrderedMap String Value

namespace AggregateFunction

/-- The written form. -/
def text : AggregateFunction → String
  | .count => "COUNT"
  | .sum => "SUM"
  | .min => "MIN"
  | .max => "MAX"
  | .avg => "AVG"

/-- The function that a text spells. -/
def parse? (s : String) : Option AggregateFunction :=
  [count, sum, min, max, avg].find? fun f => f.text == s

/-- A float as a value: whole numbers of moderate size as such, and no value without a
number. -/
def numberValue (x : Float) : Value :=
  if x.floor == x && x.abs < 9223372036854775808.0 then .int x.toInt64.toInt
  else if x.isNaN || x.isInf then .null
  else .float x

/-- The sum, from left to right. -/
def total (xs : List Float) : Float := xs.foldl (· + ·) 0

/-- The value that no other one beats; a value replaces the best so far only if it compares
with it as wanted. -/
def extreme (wanted : Ordering) (values : List Value) : Value :=
  let better (best : Option Value) (v : Value) : Option Value :=
    match best with
    | none => some v
    | some b => if v.compare? b == some wanted then some v else some b
  (values.foldl better none).getD .null

/-- The function of several values. Sum and average look at what can be read as a number. -/
def apply (f : AggregateFunction) (values : List Value) : Value :=
  let numbers := values.filterMap Value.asNumber?
  match f with
  | .count => .int values.length
  | .sum => numberValue (total numbers)
  | .avg =>
    if numbers.isEmpty then .null
    else numberValue (total numbers / Value.floatOfInt numbers.length)
  | .min => extreme .lt values
  | .max => extreme .gt values

end AggregateFunction

/-- The written form of a computed column. -/
def Aggregate.text (a : Aggregate) : String :=
  a.function.text ++ "(" ++ a.field ++ ") " ++ a.label

namespace Aggregation

/-- The first values of the grouping fields; a record without a value counts as null. -/
def groupValues (a : Aggregation) (r : Record) : List Value :=
  a.groupBy.map fun path => ((r.valuesAt path).head?).getD .null

/-- The records grouped by the texts of their group values, in order of first occurrence. -/
def groups (a : Aggregation) (records : List Record) :
    OrderedMap (List String) (List Value × List Record) :=
  records.foldl (fun groups r =>
    let values := a.groupValues r
    let key := values.map Value.render
    match groups.get? key with
    | none => groups.insert key (values, [r])
    | some (first, members) => groups.insert key (first, members ++ [r])) OrderedMap.empty

/-- The row of one group. -/
def row (a : Aggregation) (values : List Value) (records : List Record) : AggregateRow :=
  OrderedMap.ofList ((a.groupBy.zip values) ++
    a.aggregates.map fun g =>
      (g.label, g.function.apply (records.flatMap (·.valuesAt g.field))))

/-- The rows over selected records. -/
def rows (a : Aggregation) (records : List Record) : List AggregateRow :=
  (a.groups records).values.map fun g => a.row g.1 g.2

end Aggregation

end RecordGraph
