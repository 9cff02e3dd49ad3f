/-
# Records

A record is one stored entry: an entity type, a bundle within it, an identifier once it is
stored, and named fields. Fields are kept sorted by name.

A path names a field, or a column of it after the first point. A field that holds a list is
read item by item, and null counts as no value; so a path yields any number of values. The
paths `id` and `bundle` reach the record itself before any field of these names.
-/
import RecordGraph.Condition.Basic
import RecordGraph.Value.Printer

namespace RecordGraph

/-- Whether a foreign key holds one identifier or several. -/
inductive Cardinality where
  /-- One. -/
  | single
  /-- Several. -/
  | multiple
  deriving DecidableEq, Repr, Inhabited

/-- One stored entry. -/
structure Record where
  /-- The identifier, once the record is stored. -/
  id : Option String
  /-- The kind of entity. -/
  entityType : String
  /-- The kind of record within the entity type. -/
  bundle : String
  /-- The fields, sorted by name. -/
  fields : List (String × Value)
  deriving Inhabited

namespace Record

/-- A record without identifier and fields. -/
def new (entityType bundle : String) : Record := ⟨none, entityType, bundle, []⟩

/-- Whether the record has not been stored. -/
def isNew (r : Record) : Bool := r.id.isNone

/-- The same record under an identifier. -/
def withId (r : Record) (id : String) : Record := { r with id := some id }

/-- The value of a field. -/
def get? (r : Record) (field : String) : Option Value :=
  (r.fields.find? (fun f => f.1 == field)).map Prod.snd

/-- Writes a field. -/
def set (r : Record) (field : String) (v : Value) : Record :=
  { r with fields := Value.insertMember field v r.fields }

/-- Drops a field. -/
def remove (r : Record) (field : String) : Record :=
  { r with fields := r.fields.filter (fun f => f.1 ≠ field) }

/-- A path cut at its first point: the field, and the column if there is one. -/
def splitPath (path : List Char) : List Char × Option (List Char) :=
  match path.dropWhile (· ≠ '.') with
  | [] => (path, none)
  | _ :: column => (path.takeWhile (· ≠ '.'), some column)

/-- The values of a field, or of a column of its items, without nulls. -/
def fieldValues (r : Record) (field : String) (column : Option String) : List Value :=
  match r.get? field with
  | none => []
  | some v =>
    let items := match v with
      | .list items => items
      | single => [single]
    let read (item : Value) : Option Value :=
      match column with
      | none => some item
      | some c => item.member? c
    (items.filterMap read).filter fun v => !v.isNull

/-- The values at a path. -/
def valuesAt (r : Record) (path : String) : List Value :=
  if path = idField then (r.id.map Value.text).toList
  else if path = bundleField then [.text r.bundle]
  else
    let (field, column) := splitPath path.toList
    r.fieldValues (String.ofList field) (column.map String.ofList)

/-- The identifiers that a foreign key holds. -/
def referenceIds (r : Record) (field column : String) : List String :=
  (r.valuesAt (field ++ "." ++ column)).filterMap Value.toId?

/-- Writes a foreign key. Without identifiers the field goes; a single key keeps the first. -/
def setReferenceIds (r : Record) (field column : String) (ids : List String)
    (cardinality : Cardinality) : Record :=
  let item (id : String) : Value := .object [(column, .text id)]
  match ids, cardinality with
  | [], _ => r.remove field
  | id :: _, .single => r.set field (item id)
  | ids, .multiple => r.set field (.list (ids.map item))

end Record

end RecordGraph
