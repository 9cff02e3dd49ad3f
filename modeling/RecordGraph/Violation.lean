/-
# Violations

What a validation reports: a path to the offending field and a message, in order. Reports of
related models are merged under the path that leads to them.
-/
namespace RecordGraph

/-- One complaint about a field. -/
structure Violation where
  /-- The field, below the names of the relationships that lead to it. -/
  path : String
  /-- What is wrong. -/
  message : String
  deriving DecidableEq, Repr, Inhabited

namespace Violation

/-- The complaint for a required field that is blank. -/
def notBlank (field : String) : Violation := ⟨field, "This value should not be blank."⟩

/-- The same complaint one step further away; without a path of its own it is about the
step itself. -/
def under (v : Violation) (step : String) : Violation :=
  { v with path := if v.path.isEmpty then step else step ++ "." ++ v.path }

/-- The written form. -/
def text (v : Violation) : String := v.path ++ ": " ++ v.message

end Violation

/-- Complaints in the order in which they were found. -/
abbrev ViolationList := List Violation

namespace ViolationList

/-- The same complaints one step further away. -/
def under (vs : ViolationList) (step : String) : ViolationList := vs.map (·.under step)

/-- The complaints about one path. -/
def forPath (vs : ViolationList) (path : String) : ViolationList :=
  vs.filter fun v => v.path = path

/-- The written form, one complaint a line. -/
def text (vs : ViolationList) : String := String.intercalate "\n" (vs.map Violation.text)

end ViolationList

end RecordGraph
