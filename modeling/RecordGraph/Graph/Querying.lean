/-
# Models from queries

Running a query for models: the selected records are wrapped, in order, each in the type
that the query has for it.
-/
import RecordGraph.Graph.Collection

namespace RecordGraph.ModelQuery

variable {σ : Type}

/-- Wraps a record, unless it is of a bundle that the query has no type for. -/
def wrap (q : ModelQuery) (s : Session) (r : Record) : Action σ (Option Model) := do
  match q.wrapping.typeFor? r with
  | some t => return some (← Model.forge s t r)
  | none => return none

/-- Wraps records, in order. -/
def wrapAll (q : ModelQuery) (s : Session) (rs : List Record) : Action σ (List Model) := do
  return (← rs.mapM (q.wrap s)).filterMap fun m => m

variable [RecordStore σ]

/-- The models of the selected records. -/
def fetchModels (q : ModelQuery) (s : Session) : Action σ (List Model) := do
  q.wrapAll s (← q.query.fetch s)

/-- The model of the first selected record. -/
def fetchSingleModel (q : ModelQuery) (s : Session) : Action σ (Option Model) := do
  match ← q.query.fetchSingle s with
  | none => return none
  | some r => q.wrap s r

/-- The models of the selected records, as a collection. -/
def fetchCollection (q : ModelQuery) (s : Session) : Action σ Collection := do
  let c ← match q.wrapping with
    | .one t => Collection.ofType s t
    | .several _ => Collection.polymorphic s (some q.query.entityType)
  (← q.fetchModels s).forM c.putFetched
  return c

end RecordGraph.ModelQuery
