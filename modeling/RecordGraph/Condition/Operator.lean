/-
# Comparison operators

The operators of a condition and their spellings. Letter case does not matter, and between
the words of a spelling any run of blanks will do.
-/
import RecordGraph.Error
import RecordGraph.Text.Blank
import RecordGraph.Text.Case

namespace RecordGraph

/-- A comparison of a field with a value. -/
inductive Operator where
  | equal
  | notEqual
  | greaterThan
  | greaterThanOrEqual
  | lessThan
  | lessThanOrEqual
  | like
  | contains
  | startsWith
  | endsWith
  | isIn
  | notIn
  | between
  deriving DecidableEq, Repr, Inhabited

namespace Operator

/-- All operators: first those that take one value, then those that take a list. -/
def all : List Operator :=
  [.equal, .notEqual, .greaterThan, .greaterThanOrEqual, .lessThan, .lessThanOrEqual, .like,
    .contains, .startsWith, .endsWith, .isIn, .notIn, .between]

/-- The written form. -/
def text : Operator → String
  | .equal => "="
  | .notEqual => "<>"
  | .greaterThan => ">"
  | .greaterThanOrEqual => ">="
  | .lessThan => "<"
  | .lessThanOrEqual => "<="
  | .like => "LIKE"
  | .contains => "CONTAINS"
  | .startsWith => "STARTS_WITH"
  | .endsWith => "ENDS_WITH"
  | .isIn => "IN"
  | .notIn => "NOT IN"
  | .between => "BETWEEN"

/-- Whether the operator takes a list of values. -/
def isMultiValue : Operator → Bool
  | .isIn | .notIn | .between => true
  | _ => false

/-- Whether the operator denies a comparison. -/
def isNegation : Operator → Bool
  | .notEqual | .notIn => true
  | _ => false

/-- The operator that a text spells; `!=` is a second spelling of `<>`. -/
def parse? (s : String) : Option Operator :=
  let spelling := Text.upper (String.intercalate " " (Text.words s))
  match all.find? (fun op => op.text == spelling) with
  | some op => some op
  | none => if spelling = "!=" then some .notEqual else none

/-- The operator that a text spells, for the condition on a field. -/
def parse (s field : String) : Except Error Operator :=
  match parse? s with
  | some op => .ok op
  | none => .error (.invalidOperator field s .unknown)

end Operator

end RecordGraph
