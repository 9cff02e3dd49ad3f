/-
# Which records a predicate selects

A comparison is about all values at its path: most operators ask for one value that
compares, the two denials for none that does. A path without values meets no comparison,
not even a denial. Texts are compared with wildcards and by their parts in lower case.
-/
import RecordGraph.Predicate.Basic
import RecordGraph.Record.Basic
import RecordGraph.Text.Wildcard
import RecordGraph.Value.Comparison

namespace RecordGraph

/-- Whether a text has another one as a part. -/
def isPart (part : List Char) : List Char → Bool
  | [] => part.isEmpty
  | c :: rest => part.isPrefixOf (c :: rest) || isPart part rest

namespace Operator

/-- Whether some value has an accepted order with the operand. -/
def someOrder (values : List Value) (operand : Value) (accepts : Ordering → Bool) : Bool :=
  values.any fun v => (v.compare? operand).any accepts

/-- Whether the plain text of some value is accepted together with that of the operand,
both in lower case. -/
def someText (values : List Value) (operand : Value) (accepts : String → String → Bool) : Bool :=
  let pattern := Text.lower operand.plainText
  values.any fun v => accepts (Text.lower v.plainText) pattern

/-- Whether the values at a path compare with the operand. -/
def holdsOf (op : Operator) (values : List Value) (operand : Value) : Bool :=
  match op with
  | .equal => values.any fun v => v.looselyEqual operand
  | .notEqual => !values.any fun v => v.looselyEqual operand
  | .greaterThan => someOrder values operand (· == .gt)
  | .greaterThanOrEqual => someOrder values operand (· != .lt)
  | .lessThan => someOrder values operand (· == .lt)
  | .lessThanOrEqual => someOrder values operand (· != .gt)
  | .like => someText values operand Text.fitsPattern
  | .contains => someText values operand fun t p => isPart p.toList t.toList
  | .startsWith => someText values operand fun t p => p.toList.isPrefixOf t.toList
  | .endsWith => someText values operand fun t p => p.toList.isSuffixOf t.toList
  | .isIn => values.any fun v => operand.items.any fun item => v.looselyEqual item
  | .notIn => !values.any fun v => operand.items.any fun item => v.looselyEqual item
  | .between =>
    match operand.items with
    | [low, high] =>
      values.any fun v =>
        (v.compare? low).any (· != .lt) && (v.compare? high).any (· != .gt)
    | _ => false

end Operator

mutual

/-- Whether a record meets a predicate. -/
def Predicate.holds (r : Record) : Predicate → Bool
  | .absent field => (r.valuesAt field).isEmpty
  | .compare field op operand =>
    !(r.valuesAt field).isEmpty && op.holdsOf (r.valuesAt field) operand
  | .group c members => c.eval (Predicate.holdEach r members)

/-- Whether a record meets each of several predicates. -/
def Predicate.holdEach (r : Record) : List Predicate → List Bool
  | [] => []
  | p :: rest => p.holds r :: Predicate.holdEach r rest

end

/-- Whether a record meets a group of predicates. -/
def PredicateGroup.holds (g : PredicateGroup) (r : Record) : Bool := g.toPredicate.holds r

theorem Predicate.holdEach_eq_map (r : Record) (ps : List Predicate) :
    Predicate.holdEach r ps = ps.map (·.holds r) := by
  induction ps with
  | nil => simp [Predicate.holdEach]
  | cons p rest ih => simp [Predicate.holdEach, ih]

/-- A record meets a group exactly when its members' truth values combine to true. -/
theorem PredicateGroup.holds_eq_eval (g : PredicateGroup) (r : Record) :
    g.holds r = g.conjunction.eval (g.members.map (·.holds r)) := by
  simp [PredicateGroup.holds, PredicateGroup.toPredicate, Predicate.holds,
    Predicate.holdEach_eq_map]

end RecordGraph
