/-
# Conditions

A condition compares a field with a value. Applied to a group it becomes a predicate there.
A denial (`<>` or `NOT IN`) on a field that a record may lack is widened, so that a record
without the field meets it: a missing field is neither equal to nor in anything.
-/
import RecordGraph.Predicate.Basic

namespace RecordGraph

/-- The name under which conditions reach a record's identifier. -/
def idField : String := "id"

/-- The name under which conditions reach a record's bundle. -/
def bundleField : String := "bundle"

/-- A comparison of a field with a value, and whether records may lack the field. -/
structure Condition where
  /-- The field, with an optional column after a point. -/
  field : String
  /-- The comparison. -/
  operator : Operator
  /-- What the field is compared with. -/
  value : Value
  /-- Whether a record can be without the field. -/
  fieldMayBeAbsent : Bool
  deriving Inhabited

namespace Condition

/-- A condition on a field; every record has an identifier and a bundle. -/
def new (field : String) (operator : Operator) (value : Value) : Condition :=
  ⟨field, operator, value, field ≠ idField && field ≠ bundleField⟩

/-- A condition whose operator is spelled out. -/
def parse (field operator : String) (value : Value) : Except Error Condition :=
  (Operator.parse operator field).map fun op => new field op value

/-- The field equals the value. -/
def eq (field : String) (value : Value) : Condition := new field .equal value

/-- The field does not equal the value. -/
def ne (field : String) (value : Value) : Condition := new field .notEqual value

/-- The field is one of the values. -/
def inList (field : String) (values : List Value) : Condition := new field .isIn (.list values)

/-- The field is none of the values. -/
def notIn (field : String) (values : List Value) : Condition := new field .notIn (.list values)

/-- The field lies between two values, ends included. -/
def between (field : String) (low high : Value) : Condition :=
  new field .between (.list [low, high])

/-- The same condition on a field that every record has. -/
def required (c : Condition) : Condition := { c with fieldMayBeAbsent := false }

/-- The same condition with another value. -/
def withValue (c : Condition) (v : Value) : Condition := { c with value := v }

/-- The same condition with another operator. -/
def withOperator (c : Condition) (op : Operator) : Condition := { c with operator := op }

/-- Why the value does not go with the operator, if it does not. -/
def fault? (c : Condition) : Option OperatorFault :=
  if c.value.isList && !c.operator.isMultiValue then some .listGiven
  else if !c.value.isList && c.operator.isMultiValue then some .singleGiven
  else if c.operator = .between && c.value.items.length ≠ 2 then
    some (.intervalOf c.value.items.length)
  else none

/-- Checks that the value goes with the operator. -/
def validate (c : Condition) : Except Error Unit :=
  match c.fault? with
  | some fault => .error (.invalidOperator c.field c.operator.text fault)
  | none => .ok ()

/-- The predicate that a condition stands for. -/
def toPredicate (c : Condition) : Predicate :=
  if c.operator.isNegation && c.fieldMayBeAbsent then
    .group .or [.compare c.field c.operator c.value, .absent c.field]
  else .compare c.field c.operator c.value

/-- Appends the condition's predicate to a group, if its value goes with its operator. -/
def applyOn (c : Condition) (g : PredicateGroup) : Except Error PredicateGroup :=
  match c.validate with
  | .error e => .error e
  | .ok _ => .ok (g.add c.toPredicate)

end Condition

end RecordGraph
