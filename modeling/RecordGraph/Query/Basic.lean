/-
# Queries

A query over one entity type, built up by its owner and its callers. Base conditions belong
to the owner and always hold. The callers' conditions are combined by their own logic, and
each condition group is a block of its own; neither can widen what the base conditions
select. Building a query gives the store query.
-/
import RecordGraph.Condition.Group
import RecordGraph.OrderedMap
import RecordGraph.StoreQuery.Basic

namespace RecordGraph

/-- A query over one entity type. -/
structure Query where
  /-- The entity type whose records are looked at. -/
  entityType : String
  /-- Conditions that always hold. -/
  baseConditions : List Condition
  /-- The callers' conditions. -/
  conditions : List Condition
  /-- How the callers' conditions are combined, if not by one conjunction. -/
  logic : Option String
  /-- The conjunction used without logic. -/
  conjunction : Conjunction
  /-- Blocks of conditions, all of which must hold. -/
  groups : List ConditionGroup
  /-- The paths to sort by, the most important first. -/
  sorts : OrderedMap String SortDirection
  /-- How many records to skip and how many to take at most. -/
  range : Option (Nat × Nat)
  /-- The access policy to apply. -/
  accessPolicy : Option String
  /-- Tags for the store query. -/
  tags : List String
  deriving Inhabited

namespace Query

/-- All records of an entity type. -/
def new (entityType : String) : Query :=
  ⟨entityType, [], [], none, .and, [], OrderedMap.empty, none, none, []⟩

/-- Adds a condition that always holds. -/
def addBase (q : Query) (c : Condition) : Query :=
  { q with baseConditions := q.baseConditions ++ [c] }

/-- Adds a condition. -/
def addCondition (q : Query) (c : Condition) : Query :=
  { q with conditions := q.conditions ++ [c] }

/-- Sets the logic that combines the conditions. -/
def withLogic (q : Query) (logic : String) : Query := { q with logic := some logic }

/-- Sets the conjunction that combines the conditions without logic. -/
def withConjunction (q : Query) (c : Conjunction) : Query := { q with conjunction := c }

/-- Adds a block of conditions. -/
def addGroup (q : Query) (g : ConditionGroup) : Query := { q with groups := q.groups ++ [g] }

/-- Sorts by a path; a path that is sorted by already keeps its place. -/
def sortBy (q : Query) (path : String) (d : SortDirection) : Query :=
  { q with sorts := q.sorts.insert path d }

/-- Sets the range. -/
def withRange (q : Query) (start length : Nat) : Query := { q with range := some (start, length) }

/-- Sets the length of the range and keeps its start. -/
def withLimit (q : Query) (limit : Nat) : Query :=
  { q with range := some ((q.range.map Prod.fst).getD 0, limit) }

/-- Drops the range. -/
def withoutRange (q : Query) : Query := { q with range := none }

/-- Names the access policy to apply. -/
def withAccessPolicy (q : Query) (policy : String) : Query :=
  { q with accessPolicy := some policy }

/-- Adds a tag. -/
def addTag (q : Query) (t : String) : Query := { q with tags := q.tags ++ [t] }

/-- Takes over what a caller may set: conditions, groups, sort orders and tags are added,
the rest is replaced where the other query has it, the conjunction always. -/
def copyFrom (q other : Query) : Query :=
  { q with
    conditions := q.conditions ++ other.conditions
    logic := other.logic.orElse fun _ => q.logic
    conjunction := other.conjunction
    groups := q.groups ++ other.groups
    sorts := other.sorts.entries.foldl (fun sorts e => sorts.insert e.1 e.2) q.sorts
    range := other.range.orElse fun _ => q.range
    accessPolicy := other.accessPolicy.orElse fun _ => q.accessPolicy
    tags := q.tags ++ other.tags }

/-- The callers' conditions as one group. -/
def callerGroup (q : Query) : ConditionGroup :=
  ⟨q.conditions.map .condition, q.logic, q.conjunction⟩

/-- Appends a block of conditions to a group, unless it stands for nothing. -/
def appendBlock (g : ConditionGroup) (target : PredicateGroup) : Except Error PredicateGroup := do
  let block ← g.applyOn (PredicateGroup.empty .and)
  return if block.isEmpty then target else target.add block.toPredicate

/-- What a record must meet: the base conditions, the callers' conditions, the blocks. -/
def buildRoot (q : Query) : Except Error PredicateGroup := do
  let root ← q.baseConditions.foldlM (fun root c => c.applyOn root) (PredicateGroup.empty .and)
  let root ← q.callerGroup.applyOn root
  q.groups.foldlM (fun root g => appendBlock g root) root

/-- The store query. -/
def build (q : Query) : Except Error StoreQuery := do
  let root ← q.buildRoot
  let plain : StoreQuery :=
    { StoreQuery.new q.entityType with root := root, sorts := q.sorts.entries, range := q.range }
  let guarded := match q.accessPolicy with
    | none => plain
    | some policy => plain.withAccessPolicy policy
  return q.tags.foldl StoreQuery.addTag guarded

/-- The store query that counts. -/
def buildCount (q : Query) : Except Error StoreQuery := do
  return (← q.build).count

/-- The query for records of one bundle. -/
def ofBundle (entityType bundle : String) : Query :=
  (new entityType).addBase (Condition.eq bundleField (.text bundle))

end Query

/-- A rule that narrows the queries that name it, or refuses them. -/
structure AccessPolicy where
  /-- The name by which queries ask for the rule. -/
  name : String
  /-- What the rule makes of a query. -/
  apply : StoreQuery → Except Error StoreQuery

instance : Inhabited AccessPolicy := ⟨⟨"", .ok⟩⟩

end RecordGraph
