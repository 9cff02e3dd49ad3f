/-
# Connecting models

Putting a model into a relationship of another one loads it there, loads the way back on it
and, where the identifier is known, writes the foreign key. Nothing is stored.
-/
import RecordGraph.Graph.Related

namespace RecordGraph.Model

variable {σ : Type}

/-- Loads a far model on the side that holds the foreign key. -/
def putParent (m : Model) (r : Resolved) (name : String) (inverse : Option String)
    (far : Model) : Action σ Unit := do
  if r.holdsSingle then m.setParent name far
  else (← m.childrenOr name r).put far
  if let some id ← far.id? then m.addReferenceId r.foreignKey id r.cardinality
  if let some inverse := inverse then (← far.children inverse).put m

/-- Loads a far model that holds the foreign key. -/
def putChild (m : Model) (r : Resolved) (name : String) (inverse : Option String)
    (far : Model) : Action σ Unit := do
  (← m.childrenOr name r).put far
  if let some inverse := inverse then
    if r.cardinality = .single then far.setParent inverse m
    else (← far.children inverse).put m
  if let some id ← m.id? then far.addReferenceId r.foreignKey id r.cardinality

/-- Puts a model into a relationship. It has to be of a type on the far side. -/
def put (m : Model) (name : String) (far : Model) : Action σ Unit := do
  let r ← m.resolve name
  let t ← far.modelType
  if !r.farTypes.contains t.name then
    throw (.invalidType (String.intercalate " | " r.farTypes) t.name)
  match r.side with
  | .parent => m.putParent r name (r.inverseOn? t.name) far
  | .child => m.putChild r name (r.inverseOn? t.name) far

end RecordGraph.Model
