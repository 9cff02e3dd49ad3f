/-
# A store that keeps a journal

Wraps a store, writes down the calls made on it and can be told to fail: a planned failure
lets a number of calls of its kind through and makes the next one fail before it reaches
the store. Calls that fail for another reason are not written down.
-/
import RecordGraph.Store.Basic

namespace RecordGraph

/-- A kind of call. -/
inductive CallKind where
  | create
  | load
  | loadMultiple
  | execute
  | count
  | aggregate
  | save
  | delete
  deriving DecidableEq, Repr, Inhabited

namespace CallKind

/-- All kinds of calls. -/
def all : List CallKind :=
  [.create, .load, .loadMultiple, .execute, .count, .aggregate, .save, .delete]

/-- The written form. -/
def text : CallKind → String
  | .create => "create"
  | .load => "load"
  | .loadMultiple => "load_multiple"
  | .execute => "execute"
  | .count => "count"
  | .aggregate => "aggregate"
  | .save => "save"
  | .delete => "delete"

/-- The kind of call that a text spells. -/
def parse? (s : String) : Option CallKind := all.find? fun k => k.text == s

end CallKind

/-- A line of the journal. -/
inductive JournalEntry where
  /-- One record was looked up. -/
  | load (entityType id : String)
  /-- Several records were looked up. -/
  | loadMultiple (entityType : String) (ids : List String)
  /-- A query answered identifiers. -/
  | execute (entityType : String) (answer : List String)
  /-- A query answered a number. -/
  | count (entityType : String) (answer : Nat)
  /-- Aggregates were computed. -/
  | aggregate (entityType : String)
  /-- A record was saved; its identifier before and after. -/
  | save (entityType : String) (before : Option String) (after : String)
  /-- A record was deleted. -/
  | delete (entityType id : String)
  /-- A planned failure of a kind of call happened. -/
  | fault (kind : CallKind)
  deriving DecidableEq, Repr

/-- A failure to come. -/
structure PlannedFault where
  /-- The kind of call that will fail. -/
  kind : CallKind
  /-- How many calls of the kind still go through. -/
  after : Nat
  /-- What the store will report. -/
  message : String
  deriving DecidableEq, Repr

/-- A store with a journal of the calls made on it. -/
structure Journal (σ : Type) where
  /-- The wrapped store. -/
  store : σ
  /-- The journal, oldest entry first. -/
  entries : List JournalEntry
  /-- The planned failures, at most one per kind of call. -/
  plan : List PlannedFault

namespace Journal

variable {σ : Type}

/-- An empty journal around a store. -/
def around (s : σ) : Journal σ := ⟨s, [], []⟩

/-- Plans a failure, in place of an older plan for the same kind of call. -/
def schedule (j : Journal σ) (f : PlannedFault) : Journal σ :=
  { j with plan := j.plan.filter (fun g => g.kind ≠ f.kind) ++ [f] }

/-- Writes an entry. -/
def write (j : Journal σ) (e : JournalEntry) : Journal σ :=
  { j with entries := j.entries ++ [e] }

/-- Lets a call through to the store and writes down what it answered. -/
def pass {α : Type} (call : Call σ α) (entry : α → Option JournalEntry) : Call (Journal σ) α :=
  fun j =>
    match call j.store with
    | (.error e, s) => (.error e, { j with store := s })
    | (.ok a, s) =>
      let j := { j with store := s }
      (.ok a, (entry a).elim j j.write)

/-- Makes a call, unless a failure is due. -/
def attempt {α : Type} (kind : CallKind) (call : Call σ α) (entry : α → Option JournalEntry) :
    Call (Journal σ) α := fun j =>
  match j.plan.find? (fun f => f.kind = kind) with
  | none => pass call entry j
  | some f =>
    let others := j.plan.filter (fun g => g.kind ≠ kind)
    if f.after = 0 then
      (.error (.store (.other f.message)), ({ j with plan := others } : Journal σ).write (.fault kind))
    else pass call entry { j with plan := others ++ [{ f with after := f.after - 1 }] }

variable [RecordStore σ]

instance : RecordStore (Journal σ) where
  create entityType bundle := attempt .create (RecordStore.create entityType bundle) fun _ => none
  load entityType id :=
    attempt .load (RecordStore.load entityType id) fun _ => some (.load entityType id)
  loadMultiple entityType ids :=
    attempt .loadMultiple (RecordStore.loadMultiple entityType ids)
      fun _ => some (.loadMultiple entityType ids)
  execute q :=
    attempt .execute (RecordStore.execute q) fun ids => some (.execute q.entityType ids)
  count q := attempt .count (RecordStore.count q) fun n => some (.count q.entityType n)
  aggregate q a :=
    attempt .aggregate (RecordStore.aggregate q a) fun _ => some (.aggregate q.entityType)
  save r :=
    attempt .save (RecordStore.save r)
      fun stored => some (.save r.entityType r.id (stored.id.getD ""))
  delete r :=
    attempt .delete (RecordStore.delete r) fun _ => some (.delete r.entityType (r.id.getD ""))
  patience j := j.plan.foldl (fun n f => n + (f.after + 1)) (RecordStore.patience j.store)

end Journal

end RecordGraph
