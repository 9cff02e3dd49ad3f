/-
# Queries as a store sees them

A store query selects the records of one entity type that meet its root, an AND group. It
may sort them and cut out a range, or only count them; counting drops sort orders and range.
Tags mark a query for those that look at it on its way; the tag `access_policy` asks for an
access policy, which the query then names.
-/
import RecordGraph.Predicate.Basic
import RecordGraph.Record.Order

namespace RecordGraph

/-- The tag that asks for an access policy. -/
def accessPolicyTag : String := "access_policy"

/-- What a store is asked to select. -/
structure StoreQuery where
  /-- The entity type whose records are looked at. -/
  entityType : String
  /-- What a record must meet. -/
  root : PredicateGroup
  /-- The paths to sort by, the most important first. -/
  sorts : List (String × SortDirection)
  /-- How many records to skip and how many to take at most. -/
  range : Option (Nat × Nat)
  /-- Whether only the number of records is asked for. -/
  countOnly : Bool
  /-- The tags, sorted, each once. -/
  tags : List String
  /-- The access policy to apply. -/
  accessPolicy : Option String
  deriving Inhabited

/-- Inserts a text into sorted texts, unless it is there. -/
def insertText (t : String) : List String → List String
  | [] => [t]
  | u :: rest =>
    if t < u then t :: u :: rest
    else if t = u then u :: rest
    else u :: insertText t rest

namespace StoreQuery

/-- All records of an entity type. -/
def new (entityType : String) : StoreQuery :=
  ⟨entityType, PredicateGroup.empty .and, [], none, false, [], none⟩

/-- Appends a predicate to the root. -/
def add (q : StoreQuery) (p : Predicate) : StoreQuery := { q with root := q.root.add p }

/-- Appends a path to sort by. -/
def sort (q : StoreQuery) (path : String) (d : SortDirection) : StoreQuery :=
  { q with sorts := q.sorts ++ [(path, d)] }

/-- Sets the range. -/
def withRange (q : StoreQuery) (start length : Nat) : StoreQuery :=
  { q with range := some (start, length) }

/-- The query that only counts. -/
def count (q : StoreQuery) : StoreQuery :=
  { q with countOnly := true, range := none, sorts := [] }

/-- Adds a tag. -/
def addTag (q : StoreQuery) (t : String) : StoreQuery := { q with tags := insertText t q.tags }

/-- Whether the query has a tag. -/
def hasTag (q : StoreQuery) (t : String) : Bool := q.tags.contains t

/-- Names the access policy to apply, and tags the query accordingly. -/
def withAccessPolicy (q : StoreQuery) (policy : String) : StoreQuery :=
  { q.addTag accessPolicyTag with accessPolicy := some policy }

/-- The part of a list that the range leaves. -/
def slice {α : Type} (q : StoreQuery) (xs : List α) : List α :=
  match q.range with
  | none => xs
  | some (start, length) => (xs.drop start).take length

theorem mem_insertText (t u : String) (ts : List String) :
    u ∈ insertText t ts ↔ u = t ∨ u ∈ ts := by
  induction ts with
  | nil => simp [insertText]
  | cons s rest ih =>
    unfold insertText
    split
    · simp
    · split
      · rename_i h; subst h; simp
      · simp [ih]; grind

/-- A query that names an access policy is tagged for it. -/
theorem hasTag_withAccessPolicy (q : StoreQuery) (policy : String) :
    (q.withAccessPolicy policy).hasTag accessPolicyTag = true := by
  simp [withAccessPolicy, addTag, hasTag, mem_insertText]

end StoreQuery

end RecordGraph
