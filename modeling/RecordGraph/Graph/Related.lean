/-
# Reading along paths

What a relationship leads to: nothing, a model or a collection. Reading makes no call on the
store; where no collection is loaded yet, an empty one is put in place, so that what a
caller adds to it is found again. A dotted path is read step by step, and a collection is
read by reading all its members and merging what they answer.
-/
import RecordGraph.Graph.Collection

namespace RecordGraph

variable {σ : Type}

/-- What a relationship leads to. -/
inductive Related where
  /-- Nothing. -/
  | none
  /-- A model. -/
  | model (m : Model)
  /-- A collection. -/
  | collection (c : Collection)
  deriving DecidableEq, Repr, Inhabited

/-- The steps of a dotted path. There is always one, which may be blank. -/
def pathSteps (path : String) : List String := (path.toList.splitOn '.').map String.ofList

/-- What a model has loaded under a name. -/
def Model.read (m : Model) (name : String) : Action σ Related := do
  let r ← m.resolve name
  if r.holdsSingle then
    match ← m.cachedParent? name with
    | some parent => return .model parent
    | none => return .none
  else return .collection (← m.childrenOr name r)

namespace Collection

/-- An empty collection for what the members lead to under a name. -/
def emptyFor (c : Collection) (name : String) : Action σ Collection := do
  let d ← c.data
  let g ← get
  let owner := match d.membership with
    | .ofType t => some t
    | .ofEntity _ =>
      (d.members.values.map fun m => (g.model m).modelType).find? (·.hasRelationship name)
  match owner with
  | some t => forRelationship d.session (← Action.ofExcept (g.registry.resolve t.name name))
  | none => polymorphic d.session none

/-- Adds what a member leads to. -/
def merge (c : Collection) (r : Related) : Action σ Unit := do
  match r with
  | .none => return ()
  | .model m => c.putFetched m
  | .collection other =>
    (← other.models).forM c.put
    (← other.snapshotModels).forM c.putSnapshot

/-- What the members have loaded under a name, merged. In a polymorphic collection only the
members that declare the relationship take part. -/
def read (c : Collection) (name : String) : Action σ Collection := do
  let d ← c.data
  let result ← c.emptyFor name
  d.members.values.forM fun m => do
    if d.isPolymorphic && !(← m.hasRelationship name) then return ()
    else result.merge (← m.read name)
  return result

end Collection

namespace Related

/-- The models. -/
def models (r : Related) : Action σ (List Model) :=
  match r with
  | .none => return []
  | .model m => return [m]
  | .collection c => c.models

/-- One step. -/
def read (r : Related) (name : String) : Action σ Related :=
  match r with
  | .none => return .none
  | .model m => m.read name
  | .collection c => return .collection (← c.read name)

/-- All steps of a path. -/
def get (r : Related) : List String → Action σ Related
  | [] => return r
  | name :: rest => do (← r.read name).get rest

end Related

end RecordGraph
