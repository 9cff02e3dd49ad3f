/-
# Validating

A model is validated by the rules of its type. Along a path the models that it leads to are
validated instead, each as often as it is reached, and every violation is reported under the
names and keys that lead to it. Nothing is fetched.
-/
import RecordGraph.Graph.Related
import RecordGraph.Text.Blank

namespace RecordGraph

variable {σ : Type}

namespace ModelType

/-- What the rules of a type find wrong with a record. -/
def violations (t : ModelType) (r : Record) : ViolationList :=
  (t.requiredFields.filter fun f => Value.isBlank Text.isBlankText (r.get? f)).map
      Violation.notBlank ++
    t.validators.flatMap fun v => v r

end ModelType

/-- The violations of each member under its key. -/
def Collection.validateEach (c : Collection) (check : Model → Action σ ViolationList) :
    Action σ ViolationList := do
  return (← (← c.entries).mapM fun (key, m) => return (← check m).under key).flatten

/-- The violations of a model, or of what a path leads to. -/
def Model.validate : List String → Model → Action σ ViolationList
  | [], m => do
    let d ← m.data
    return d.modelType.violations d.record
  | name :: rest, m => do
    let nested : ViolationList ← match ← m.read name with
      | .none => pure []
      | .model other => Model.validate rest other
      | .collection c => do
        if !rest.isEmpty then c.requireSingleType "validate with a relationship"
        c.validateEach (Model.validate rest)
    return ViolationList.under nested name

/-- The violations of what is there, or of what a path leads to. -/
def Related.validate (r : Related) (path : List String) : Action σ ViolationList := do
  match r with
  | .none => return []
  | .model m => m.validate path
  | .collection c =>
    if !path.isEmpty then c.requireSingleType "validate with a relationship"
    c.validateEach (Model.validate path)

end RecordGraph
