/-
# Deleting

Deleting a model first deletes what its cascading relationships lead to, fetched afresh, and
then its own record. A model that was never stored is left alone.

A chain of cascades can come back to a record that is still being deleted; then it never
ends. The depth is therefore given, and `Model.delete` gives one that only an endless
cascade exceeds.
-/
import RecordGraph.Graph.Fetching

namespace RecordGraph

variable {σ : Type} [RecordStore σ]

namespace ModelType

/-- The relationships along which deletions cascade. -/
def cascades (t : ModelType) : List String :=
  (t.relationships.values.filter fun r => r.cascadingDelete && r.side = .child).map (·.name)

end ModelType

namespace Model

/-- Deletes a model, with at most `depth` cascades inside one another. -/
def deleteWithin : (depth : Nat) → (m : Model) → Action σ Unit
  | 0, m => do throw (.endlessCascade (← m.key))
  | depth + 1, m => do
    if ← m.isNew then return ()
    (← m.modelType).cascades.forM fun name => do
      let children ← (Related.model m).fetch (pathSteps name) none
      (← children.models).forM (deleteWithin depth)
    Action.call (RecordStore.delete (← m.record))

/-- Deletes a model and all that its cascading relationships lead to. -/
def delete (m : Model) : Action σ Unit := do
  m.deleteWithin (RecordStore.patience (← get).store + 2)

end Model

end RecordGraph
