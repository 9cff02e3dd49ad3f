/-
# Sessions

A session is one unit of work. It numbers the keys of unsaved models, knows the access
policies and remembers the models it forged; closing it unloads what they have loaded.

A query that is tagged for an access policy reaches the store only as that policy left
it. One that names no policy, or an unknown one, does not reach the store.
-/
import RecordGraph.Graph.State

namespace RecordGraph

variable {σ : Type}

namespace Session

/-- Opens a session with checked settings. -/
def start (config : Config) : Action σ Session := do
  Action.ofExcept config.validate
  let g ← get
  set { g with sessions := g.sessions.push ⟨config, 0, OrderedMap.empty, []⟩ }
  return ⟨g.sessions.size⟩

/-- The settings. -/
def config (s : Session) : Action σ Config := return (← s.data).config

/-- The next key for an unsaved model. -/
def nextPlaceholder (s : Session) : Action σ String := do
  let d ← s.data
  s.update fun d => { d with placeholders := d.placeholders + 1 }
  return d.config.placeholderPrefix ++ toString (d.placeholders + 1)

/-- Registers an access policy, in place of one of the same name. -/
def registerPolicy (s : Session) (p : AccessPolicy) : Action σ Unit :=
  s.update fun d => { d with policies := d.policies.insert p.name p }

/-- Number of models forged since the session was last closed. -/
def liveModels (s : Session) : Action σ Nat := return (← s.data).forged.length

/-- Unloads all that the forged models have loaded, and forgets these models. -/
def close (s : Session) : Action σ Unit := do
  let forged := (← s.data).forged
  s.update fun d => { d with forged := [] }
  forged.forM fun m =>
    m.update fun d => { d with parents := OrderedMap.empty, children := OrderedMap.empty }

/-- A query over an entity type, with the session's conjunction. -/
def query (s : Session) (entityType : String) : Action σ Query := do
  return (Query.new entityType).withConjunction (← s.config).defaultConjunction

/-- A query for models of a type, with the session's conjunction. -/
def modelQuery (s : Session) (modelType : String) : Action σ ModelQuery := do
  let t ← Action.ofExcept ((← get).registry.get modelType)
  let c := (← s.config).defaultConjunction
  return (ModelQuery.ofType t).map (·.withConjunction c)

/-- A query for models of several types, with the session's conjunction. -/
def multiModelQuery (s : Session) (modelTypes : List String) : Action σ ModelQuery := do
  let registry := (← get).registry
  let ts ← Action.ofExcept (modelTypes.mapM registry.get)
  let q ← Action.ofExcept (ModelQuery.ofTypes ts)
  let c := (← s.config).defaultConjunction
  return q.map (·.withConjunction c)

/-- The query as the store may see it. -/
def prepare (s : Session) (q : StoreQuery) : Action σ StoreQuery := do
  if q.hasTag accessPolicyTag then
    match q.accessPolicy with
    | none => throw (.configuration .policyMissing)
    | some name =>
      match (← s.data).policies.get? name with
      | none => throw (.configuration (.unknownPolicy name))
      | some policy => Action.ofExcept (policy.apply q)
  else return q

variable [RecordStore σ]

/-- Runs a store query for identifiers. -/
def execute (s : Session) (q : StoreQuery) : Action σ (List String) := do
  Action.call (RecordStore.execute (← s.prepare q))

/-- Runs a store query for a number. -/
def count (s : Session) (q : StoreQuery) : Action σ Nat := do
  Action.call (RecordStore.count (← s.prepare q))

/-- Runs a store query for aggregates. -/
def aggregate (s : Session) (q : StoreQuery) (a : Aggregation) : Action σ (List AggregateRow) := do
  Action.call (RecordStore.aggregate (← s.prepare q) a)

end Session

namespace Query

variable [RecordStore σ]

/-- The identifiers of the selected records. -/
def fetchIds (q : Query) (s : Session) : Action σ (List String) := do
  s.execute (← Action.ofExcept q.build)

/-- The selected records. Nothing is loaded when nothing is selected. -/
def fetch (q : Query) (s : Session) : Action σ (List Record) := do
  let ids ← q.fetchIds s
  if ids.isEmpty then return []
  else Action.call (RecordStore.loadMultiple q.entityType ids)

/-- The first selected record. -/
def fetchSingle (q : Query) (s : Session) : Action σ (Option Record) := do
  return (← (q.withLimit 1).fetch s).head?

/-- The number of selected records, the range left out of account. -/
def fetchTotal (q : Query) (s : Session) : Action σ Nat := do
  s.count (← Action.ofExcept q.buildCount)

/-- Aggregates over the selected records. -/
def fetchRows (q : Query) (a : Aggregation) (s : Session) : Action σ (List AggregateRow) := do
  s.aggregate (← Action.ofExcept q.build) a

end Query

end RecordGraph
