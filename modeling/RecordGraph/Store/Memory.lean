/-
# The store in memory

Records are kept per entity type, in the order in which their identifiers were first
stored. A record without identifier gets the next number that no record of its entity type
has; a numeric identifier that comes with a record moves the numbering past it. Every call
is counted, and queries and deletions are noted.
-/
import RecordGraph.OrderedMap
import RecordGraph.Predicate.Matching
import RecordGraph.Store.Basic
import RecordGraph.Text.Numeral

namespace RecordGraph

/-- How often each kind of call was made. -/
structure CallCounts where
  queries : Nat
  counts : Nat
  aggregates : Nat
  loads : Nat
  saves : Nat
  deletes : Nat
  deriving DecidableEq, Repr, Inhabited

/-- Records in memory. -/
structure MemoryStore where
  /-- The records of each entity type by identifier. -/
  records : OrderedMap String (OrderedMap String Record)
  /-- The largest number given out or met so far. -/
  lastId : Nat
  /-- How often each kind of call was made. -/
  calls : CallCounts
  /-- Entity type and identifier of every deletion, in order. -/
  deleted : List (String × String)
  /-- Every query that was run, in order. -/
  executed : List StoreQuery
  deriving Inhabited

namespace MemoryStore

/-- A store without records. -/
def empty : MemoryStore := ⟨OrderedMap.empty, 0, ⟨0, 0, 0, 0, 0, 0⟩, [], []⟩

/-- The records of an entity type by identifier. -/
def recordsOf (s : MemoryStore) (entityType : String) : OrderedMap String Record :=
  (s.records.get? entityType).getD OrderedMap.empty

/-- Number of records of an entity type. -/
def size (s : MemoryStore) (entityType : String) : Nat := (s.recordsOf entityType).size

/-- Number of records. -/
def total (s : MemoryStore) : Nat := s.records.values.foldl (fun n byId => n + byId.size) 0

/-- The next number of the numbering, which runs through the machine words. -/
def nextId (last : Nat) : Nat := (last + 1) % (Text.wordMax + 1)

/-- The first number after `last` that is not taken, looking at no more than `tries`. -/
def freeId (taken : OrderedMap String Record) : (tries last : Nat) → Nat
  | 0, last => nextId last
  | tries + 1, last =>
    if taken.contains (toString (nextId last)) then freeId taken tries (nextId last)
    else nextId last

/-- Puts a record under its identifier, or under a new one. -/
def put (s : MemoryStore) (r : Record) : Record × MemoryStore :=
  let byId := s.recordsOf r.entityType
  let (id, lastId) := match r.id with
    | some id => (id, max s.lastId ((Text.word? id).getD 0))
    | none =>
      let n := freeId byId byId.size s.lastId
      (toString n, n)
  let stored := r.withId id
  (stored,
    { s with
      records := s.records.insert r.entityType (byId.insert id stored)
      lastId := lastId })

/-- Puts a record without counting a call; answers its identifier. -/
def seed (s : MemoryStore) (r : Record) : String × MemoryStore :=
  let (stored, s') := s.put r
  (stored.id.getD "", s')

/-- The records that a query selects, sorted, before its range is applied. -/
def select (s : MemoryStore) (q : StoreQuery) : List Record :=
  let matched := (s.recordsOf q.entityType).values.filter q.root.holds
  matched.mergeSort (Record.precedes q.sorts)

/-- Notes a query. -/
def note (s : MemoryStore) (q : StoreQuery) : MemoryStore :=
  { s with executed := s.executed ++ [q] }

/-- Looks up one record. -/
def load (entityType id : String) : Call MemoryStore (Option Record) := fun s =>
  (.ok ((s.recordsOf entityType).get? id),
    { s with calls := { s.calls with loads := s.calls.loads + 1 } })

/-- Looks up several records; identifiers without a record are passed over. -/
def loadMultiple (entityType : String) (ids : List String) : Call MemoryStore (List Record) :=
  fun s =>
    (.ok (ids.filterMap (s.recordsOf entityType).get?),
      { s with calls := { s.calls with loads := s.calls.loads + 1 } })

/-- Runs a query for identifiers. A query that only counts is refused. -/
def execute (q : StoreQuery) : Call MemoryStore (List String) := fun s =>
  if q.countOnly then (.error (.store .countQuery), s)
  else
    (.ok (q.slice ((s.select q).filterMap Record.id)),
      { s.note q with calls := { s.calls with queries := s.calls.queries + 1 } })

/-- Counts the selected records. -/
def count (q : StoreQuery) : Call MemoryStore Nat := fun s =>
  (.ok (s.select q).length,
    { s.note q with calls := { s.calls with counts := s.calls.counts + 1 } })

/-- Computes aggregates over the selected records. -/
def aggregate (q : StoreQuery) (a : Aggregation) : Call MemoryStore (List AggregateRow) :=
  fun s =>
    (.ok (a.rows (s.select q)),
      { s.note q with calls := { s.calls with aggregates := s.calls.aggregates + 1 } })

/-- Stores a record. -/
def save (r : Record) : Call MemoryStore Record := fun s =>
  let (stored, s') := s.put r
  (.ok stored, { s' with calls := { s.calls with saves := s.calls.saves + 1 } })

/-- Removes a record; that it was asked for is noted even if there is no such record. -/
def delete (r : Record) : Call MemoryStore Unit := fun s =>
  match r.id with
  | none => (.error (.store .deleteUnsaved), s)
  | some id =>
    let records := match s.records.get? r.entityType with
      | none => s.records
      | some byId => s.records.insert r.entityType (byId.erase id)
    (.ok (),
      { s with
        records := records
        calls := { s.calls with deletes := s.calls.deletes + 1 }
        deleted := s.deleted ++ [(r.entityType, id)] })

instance : RecordStore MemoryStore where
  create entityType bundle := fun s => (.ok (Record.new entityType bundle), s)
  load := load
  loadMultiple := loadMultiple
  execute := execute
  count := count
  aggregate := aggregate
  save := save
  delete := delete
  patience s := s.total

end MemoryStore

end RecordGraph
