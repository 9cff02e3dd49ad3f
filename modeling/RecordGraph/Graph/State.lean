/-
# The state of a graph of models

Sessions, models and collections are objects with an identity: two models of one record stay
two models. The state keeps what each of them holds, next to the record store and the
registry that all of them share. An action reads and changes the state; when it fails, what
it changed before stays changed.
-/
import RecordGraph.Cells
import RecordGraph.Config
import RecordGraph.Query.ModelQuery
import RecordGraph.Store.Basic

namespace RecordGraph

/-- A session. -/
structure Session where
  /-- Its number among the sessions of the graph. -/
  number : Nat
  deriving DecidableEq, Repr, Inhabited

/-- A model: one wrapper of a record. -/
structure Model where
  /-- Its number among the models of the graph. -/
  number : Nat
  deriving DecidableEq, Repr, Inhabited

/-- A collection of models. -/
structure Collection where
  /-- Its number among the collections of the graph. -/
  number : Nat
  deriving DecidableEq, Repr, Inhabited

/-- What a session holds. -/
structure SessionData where
  /-- The settings it was opened with. -/
  config : Config
  /-- How many placeholder keys it has given out. -/
  placeholders : Nat
  /-- The access policies by name. -/
  policies : OrderedMap String AccessPolicy
  /-- The models forged since the session was last closed. -/
  forged : List Model
  deriving Inhabited

/-- What a model holds. -/
structure ModelData where
  /-- The session that forged it. -/
  session : Session
  /-- Its type. -/
  modelType : ModelType
  /-- The identifier its record had when it was forged, or else a placeholder. -/
  key : String
  /-- Its record. -/
  record : Record
  /-- The loaded parents by relationship. -/
  parents : OrderedMap String Model
  /-- The loaded collections by relationship. -/
  children : OrderedMap String Collection
  deriving Inhabited

/-- Which models a collection admits. -/
inductive Membership where
  /-- Models of one type. -/
  | ofType (t : ModelType)
  /-- Models of one entity type, which is open until the first model comes. -/
  | ofEntity (entityType : Option String)
  deriving Inhabited

/-- What a collection holds. -/
structure CollectionData where
  /-- The session it belongs to. -/
  session : Session
  /-- Which models it admits. -/
  membership : Membership
  /-- The members by key. -/
  members : OrderedMap String Model
  /-- The members it was loaded or last saved with, by key. -/
  snapshot : OrderedMap String Model
  deriving Inhabited

/-- The state of a graph. -/
structure Graph (σ : Type) where
  /-- The record store. -/
  store : σ
  /-- The model types. -/
  registry : Registry
  /-- What the sessions hold. -/
  sessions : Cells SessionData
  /-- What the models hold. -/
  models : Cells ModelData
  /-- What the collections hold. -/
  collections : Cells CollectionData

/-- A change of the state that answers or fails. -/
abbrev Action (σ α : Type) := ExceptT Error (StateM (Graph σ)) α

namespace Graph

variable {σ : Type}

/-- A graph without objects. -/
def new (store : σ) (registry : Registry) : Graph σ :=
  ⟨store, registry, Cells.empty, Cells.empty, Cells.empty⟩

/-- What a session holds. -/
def session (g : Graph σ) (s : Session) : SessionData := g.sessions.get s.number

/-- What a model holds. -/
def model (g : Graph σ) (m : Model) : ModelData := g.models.get m.number

/-- What a collection holds. -/
def collection (g : Graph σ) (c : Collection) : CollectionData := g.collections.get c.number

/-- Changes what a session holds. -/
def setSession (g : Graph σ) (s : Session) (d : SessionData) : Graph σ :=
  { g with sessions := g.sessions.set s.number d }

/-- Changes what a model holds. -/
def setModel (g : Graph σ) (m : Model) (d : ModelData) : Graph σ :=
  { g with models := g.models.set m.number d }

/-- Changes what a collection holds. -/
def setCollection (g : Graph σ) (c : Collection) (d : CollectionData) : Graph σ :=
  { g with collections := g.collections.set c.number d }

@[simp] theorem session_setSession (g : Graph σ) (s t : Session) (d : SessionData) :
    (g.setSession s d).session t = if s = t then d else g.session t := by
  cases s; cases t; simp [session, setSession]

@[simp] theorem model_setModel (g : Graph σ) (m n : Model) (d : ModelData) :
    (g.setModel m d).model n = if m = n then d else g.model n := by
  cases m; cases n; simp [model, setModel]

@[simp] theorem collection_setCollection (g : Graph σ) (c e : Collection) (d : CollectionData) :
    (g.setCollection c d).collection e = if c = e then d else g.collection e := by
  cases c; cases e; simp [collection, setCollection]

@[simp] theorem model_setCollection (g : Graph σ) (c : Collection) (d : CollectionData)
    (m : Model) : (g.setCollection c d).model m = g.model m := rfl

@[simp] theorem collection_setModel (g : Graph σ) (m : Model) (d : ModelData)
    (c : Collection) : (g.setModel m d).collection c = g.collection c := rfl

end Graph

namespace Action

variable {σ α : Type}

/-- Answers what a computation on values answers. -/
def ofExcept (r : Except Error α) : Action σ α := fun g => (r, g)

/-- Makes a call on the record store. -/
def call (c : Call σ α) : Action σ α := fun g =>
  match c g.store with
  | (r, store) => (r, { g with store := store })

end Action

namespace Session

variable {σ : Type}

/-- What the session holds. -/
def data (s : Session) : Action σ SessionData := return (← get).session s

/-- Changes what the session holds. -/
def update (s : Session) (f : SessionData → SessionData) : Action σ Unit :=
  modify fun g => g.setSession s (f (g.session s))

end Session

namespace Model

variable {σ : Type}

/-- What the model holds. -/
def data (m : Model) : Action σ ModelData := return (← get).model m

/-- Changes what the model holds. -/
def update (m : Model) (f : ModelData → ModelData) : Action σ Unit :=
  modify fun g => g.setModel m (f (g.model m))

end Model

namespace Collection

variable {σ : Type}

/-- What the collection holds. -/
def data (c : Collection) : Action σ CollectionData := return (← get).collection c

/-- Changes what the collection holds. -/
def update (c : Collection) (f : CollectionData → CollectionData) : Action σ Unit :=
  modify fun g => g.setCollection c (f (g.collection c))

end Collection

end RecordGraph
