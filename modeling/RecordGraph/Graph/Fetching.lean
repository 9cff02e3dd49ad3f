/-
# Fetching relationships

Loading what a relationship leads to, for any number of models at once. The models are
grouped by type; each group asks for all identifiers it needs in batches, the models found
are handed to the members they belong to, and the way back is loaded on them, so that both
directions can be read without another query.

What was loaded before is replaced, except that unsaved models are kept: they are not in
the store, and would be lost.
-/
import RecordGraph.Graph.Querying
import RecordGraph.Graph.Related

namespace RecordGraph

variable {σ : Type}

/-- A list cut into pieces of a size; the last one may be shorter. A size of zero counts as
one. -/
def batches {α : Type} (size : Nat) : List α → List (List α)
  | [] => []
  | a :: rest => (a :: rest.take (size - 1)) :: batches size (rest.drop (size - 1))
termination_by xs => xs.length
decreasing_by simp only [List.length_drop, List.length_cons]; omega

/-- The members of a list, each once, in order of first occurrence. -/
def distinct {α : Type} [DecidableEq α] (xs : List α) : List α :=
  xs.foldl (fun seen x => if x ∈ seen then seen else seen ++ [x]) []

namespace Fetching

/-- What is fetched: for whom the queries run, along which relationship, with which query,
and with which condition once the identifiers are known. -/
structure Plan where
  /-- The session that queries. -/
  session : Session
  /-- The relationship. -/
  resolved : Resolved
  /-- The query for the far models. -/
  query : ModelQuery
  /-- The condition on the far records, without identifiers. -/
  condition : Condition

/-- The members grouped by the name of their type, in order of first occurrence. -/
def groupByType (members : List Model) : Action σ (OrderedMap String (List Model)) := do
  let g ← get
  return members.foldl (fun groups m =>
    let name := (g.model m).modelType.name
    groups.insert name ((groups.get? name).getD [] ++ [m])) OrderedMap.empty

/-- The query of one batch. -/
def batchQuery (plan : Plan) (ids : List String) : ModelQuery :=
  plan.query.map (·.addBase (plan.condition.withValue (Value.texts ids)))

/-- Fetches one batch into what was found before. -/
def runBatch [RecordStore σ] (plan : Plan) (found : OrderedMap String Model)
    (ids : List String) : Action σ (OrderedMap String Model) := do
  let models ← (batchQuery plan ids).fetchModels plan.session
  let g ← get
  return models.foldl (fun found m =>
    match (g.model m).record.id with
    | some id => found.insert id m
    | none => found) found

/-- The far models that the identifiers ask for, by their own identifier. -/
def run [RecordStore σ] (plan : Plan) (ids : List String) : Action σ (OrderedMap String Model) := do
  let size := (← plan.session.config).fetchBatchSize.getD ids.length
  (batches size ids).foldlM (runBatch plan) OrderedMap.empty

/-- Replaces a loaded collection by a new one that holds its unsaved members only. -/
def resetChildren (plan : Plan) (m : Model) : Action σ Unit := do
  let fresh ← Collection.forRelationship plan.session plan.resolved
  if let some previous ← m.cachedChildren? plan.resolved.name then
    (← previous.models).forM fun pending => do
      if ← pending.isNew then fresh.put pending
  m.setChildren plan.resolved.name fresh

/-! ## The members hold the foreign key -/

/-- Whether a member holds a single parent that is not stored yet. -/
def holdsUnsavedParent (plan : Plan) (m : Model) : Action σ Bool := do
  if plan.resolved.cardinality = .single then
    match ← m.cachedParent? plan.resolved.name with
    | some parent => parent.isNew
    | none => return false
  else return false

/-- Unloads the relationship of a member and answers the identifiers in its foreign key. -/
def unloadParents (plan : Plan) (m : Model) : Action σ (List String) := do
  if plan.resolved.cardinality = .single then m.removeParent plan.resolved.name
  else resetChildren plan m
  m.parentIds plan.resolved.name

/-- Hands a far model to the member that refers to it, and loads the way back. -/
def attachParent (plan : Plan) (m target : Model) : Action σ Unit := do
  if plan.resolved.cardinality = .single then m.setParent plan.resolved.name target
  else (← m.children plan.resolved.name).putFetched target
  if let some inverse := plan.resolved.inverseOn? (← target.modelType).name then
    let siblings ← target.children inverse
    if ← m.isNew then siblings.put m else siblings.putFetched m

/-- Loads the far models of members that hold the foreign key. -/
def parentSide [RecordStore σ] (plan : Plan) (members : List Model) : Action σ Unit := do
  let members ← members.filterM fun m => return !(← holdsUnsavedParent plan m)
  let ids := distinct (← members.mapM (unloadParents plan)).flatten
  if ids.isEmpty then return ()
  let targets ← run plan ids
  members.forM fun m => do
    (← m.parentIds plan.resolved.name).forM fun id => do
      if let some target := targets.get? id then attachParent plan m target

/-! ## The far records hold the foreign key -/

/-- The stored members by identifier, with their collections reset. -/
def unloadChildren (plan : Plan) (members : List Model) : Action σ (OrderedMap String Model) :=
  members.foldlM (fun owners m => do
    resetChildren plan m
    match ← m.id? with
    | some id => return owners.insert id m
    | none => return owners) OrderedMap.empty

/-- Hands a far model to a member that it refers to, and loads the way back. -/
def attachChild (plan : Plan) (owner child : Model) : Action σ Unit := do
  (← owner.children plan.resolved.name).putFetched child
  if let some inverse := plan.resolved.inverseOn? (← child.modelType).name then
    if plan.resolved.cardinality = .single then child.setParent inverse owner
    else (← child.children inverse).putFetched owner

/-- Loads the far models that refer to the members. -/
def childSide [RecordStore σ] (plan : Plan) (members : List Model) : Action σ Unit := do
  let owners ← unloadChildren plan members
  if owners.isEmpty then return ()
  let children ← run plan owners.keys
  let key := plan.resolved.foreignKey
  children.values.forM fun child => do
    (← child.record).referenceIds key.field key.column |>.forM fun id => do
      if let some owner := owners.get? id then attachChild plan owner child

/-- Loads a relationship of members of one type. -/
def fetchGroup [RecordStore σ] (s : Session) (t : ModelType) (name : String)
    (callers : Option Query) (members : List Model) : Action σ Unit := do
  let relationship ← Action.ofExcept (t.relationship name)
  let registry := (← get).registry
  let resolved ← Action.ofExcept (registry.resolve t.name name)
  let query ← Action.ofExcept (registry.relationshipQuery relationship)
  let query := match callers with
    | some q => query.map (·.copyFrom q)
    | none => query
  let condition ← Action.ofExcept (registry.relationshipCondition relationship)
  let plan : Plan := ⟨s, resolved, query, condition⟩
  match resolved.side with
  | .parent => parentSide plan members
  | .child => childSide plan members

end Fetching

/-- Loads a relationship of any number of models. Where they are of several types, the types
that do not declare the relationship stay out; one of them has to. -/
def fetchRelationship [RecordStore σ] (s : Session) (members : List Model) (name : String)
    (callers : Option Query) : Action σ Unit := do
  let groups ← Fetching.groupByType members
  let declared ← groups.entries.mapM fun (typeName, group) => do
    let t ← Action.ofExcept ((← get).registry.get typeName)
    if !t.hasRelationship name && 1 < groups.size then return false
    else
      Fetching.fetchGroup s t name callers group
      return true
  match groups.keys with
  | [] => return ()
  | typeName :: _ =>
    if !declared.any id then throw (.relationshipNotDefined typeName name)

namespace Related

/-- Loads what a relationship leads to, and reads it. -/
def fetchStep [RecordStore σ] (r : Related) (name : String) (callers : Option Query) :
    Action σ Related := do
  match r with
  | .none => return .none
  | .model m =>
    fetchRelationship (← m.data).session [m] name callers
    m.read name
  | .collection c =>
    let d ← c.data
    fetchRelationship d.session d.members.values name callers
    return .collection (← c.read name)

/-- Loads the last step of a path; the steps before it are only read. -/
def fetch [RecordStore σ] (r : Related) (path : List String) (callers : Option Query) :
    Action σ Related := do
  (← r.get path.dropLast).fetchStep (path.getLast?.getD "") callers

end Related

end RecordGraph
