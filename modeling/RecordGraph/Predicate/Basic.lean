/-
# Predicates of a store query

What a store is asked to select: comparisons of a field with a value, tests that a field is
absent, and groups of these under a conjunction. A group is built by appending to it.
-/
import RecordGraph.Condition.Conjunction
import RecordGraph.Condition.Operator
import RecordGraph.Value.Basic

namespace RecordGraph

/-- A test of a record. -/
inductive Predicate where
  /-- The field compares with the value as the operator says. -/
  | compare (field : String) (operator : Operator) (value : Value)
  /-- The field has no value. -/
  | absent (field : String)
  /-- The members hold, combined by the conjunction. -/
  | group (conjunction : Conjunction) (members : List Predicate)
  deriving Inhabited

/-- Predicates under a conjunction. -/
structure PredicateGroup where
  /-- How the members are combined. -/
  conjunction : Conjunction
  /-- The members, in the order in which they were added. -/
  members : List Predicate
  deriving Inhabited

namespace PredicateGroup

/-- A group without members. -/
def empty (c : Conjunction) : PredicateGroup := ⟨c, []⟩

/-- Appends a predicate. -/
def add (g : PredicateGroup) (p : Predicate) : PredicateGroup :=
  { g with members := g.members ++ [p] }

/-- The group as one predicate. -/
def toPredicate (g : PredicateGroup) : Predicate := .group g.conjunction g.members

/-- Whether the group has no member. -/
def isEmpty (g : PredicateGroup) : Bool := g.members.isEmpty

/-- Number of members. -/
def size (g : PredicateGroup) : Nat := g.members.length

@[simp] theorem members_empty (c : Conjunction) : (empty c).members = [] := rfl

@[simp] theorem conjunction_empty (c : Conjunction) : (empty c).conjunction = c := rfl

@[simp] theorem members_add (g : PredicateGroup) (p : Predicate) :
    (g.add p).members = g.members ++ [p] := rfl

@[simp] theorem conjunction_add (g : PredicateGroup) (p : Predicate) :
    (g.add p).conjunction = g.conjunction := rfl

end PredicateGroup

end RecordGraph
