/-
# Groups of conditions

An ordered list of conditions and nested groups with the logic that combines them. Without
logic the group's own conjunction combines all entries. Applying a group appends predicates
to a target; what was appended before a failure stays there, except that a nested block is
appended only when it is complete.
-/
import RecordGraph.Condition.Basic
import RecordGraph.Logic.Expr

namespace RecordGraph

/-- An entry of a group of conditions. -/
inductive ConditionEntry where
  /-- A condition. -/
  | condition (c : Condition)
  /-- A nested group: its entries, its logic and its conjunction. -/
  | group (entries : List ConditionEntry) (logic : Option String) (conjunction : Conjunction)
  deriving Inhabited

/-- Conditions and nested groups, and how they are combined. -/
structure ConditionGroup where
  /-- The entries, numbered by the logic from one. -/
  entries : List ConditionEntry
  /-- The logic, if it is not just one conjunction. -/
  logic : Option String
  /-- The conjunction used without logic. -/
  conjunction : Conjunction
  deriving Inhabited

/-- Appending to a group of predicates; a failure keeps what was appended before it. -/
abbrev Filling := ExceptT Error (StateM PredicateGroup) Unit

/-- Appends the predicate of a condition. -/
def Condition.fill (c : Condition) : Filling := fun g =>
  match c.applyOn g with
  | .error e => (.error e, g)
  | .ok g' => (.ok (), g')

mutual

/-- Appends what an expression over entries stands for. A conjunction becomes a group of its
own, appended once it is complete. -/
def Logic.Expr.fill (entries : List Filling) : Logic.Expr → Filling
  | .condition i => (entries[i]?).getD (pure ())
  | .group c children => fun g =>
    match Logic.fillEach entries children (PredicateGroup.empty c) with
    | (.error e, _) => (.error e, g)
    | (.ok _, block) => (.ok (), g.add block.toPredicate)

/-- Appends what several expressions stand for. -/
def Logic.fillEach (entries : List Filling) : List Logic.Expr → Filling
  | [] => pure ()
  | e :: rest => do
    e.fill entries
    Logic.fillEach entries rest

end

namespace ConditionGroup

/-- A group without entries. -/
def empty (c : Conjunction) : ConditionGroup := ⟨[], none, c⟩

/-- Appends an entry. -/
def add (g : ConditionGroup) (e : ConditionEntry) : ConditionGroup :=
  { g with entries := g.entries ++ [e] }

/-- Appends a condition. -/
def addCondition (g : ConditionGroup) (c : Condition) : ConditionGroup := g.add (.condition c)

/-- The group as an entry of another one. -/
def toEntry (g : ConditionGroup) : ConditionEntry := .group g.entries g.logic g.conjunction

/-- Appends a nested group. -/
def addGroup (g : ConditionGroup) (nested : ConditionGroup) : ConditionGroup :=
  g.add nested.toEntry

/-- Number of entries. -/
def size (g : ConditionGroup) : Nat := g.entries.length

/-- The logic of `count` entries, compiled; without logic it is the conjunction of all. -/
def compileLogic (logic : Option String) (c : Conjunction) (count : Nat) :
    Except Error (List Logic.Expr) :=
  Logic.compile (logic.getD (Logic.defaultText c count)) count

/-- The logic of the group, compiled. -/
def compile (g : ConditionGroup) : Except Error (List Logic.Expr) :=
  compileLogic g.logic g.conjunction g.entries.length

/-- Appends what entries stand for under their logic. Without entries and logic there is
nothing to append. -/
def fillFrom (entries : List Filling) (logic : Option String) (c : Conjunction) : Filling :=
  if entries.isEmpty && logic.isNone then pure ()
  else
    match compileLogic logic c entries.length with
    | .error e => throw e
    | .ok expressions => Logic.fillEach entries expressions

end ConditionGroup

mutual

/-- Appends what an entry stands for. -/
def ConditionEntry.fill : ConditionEntry → Filling
  | .condition c => c.fill
  | .group entries logic c => ConditionGroup.fillFrom (ConditionEntry.fillings entries) logic c

/-- What each of several entries appends. -/
def ConditionEntry.fillings : List ConditionEntry → List Filling
  | [] => []
  | e :: rest => e.fill :: ConditionEntry.fillings rest

end

namespace ConditionGroup

/-- Appends what the group stands for. -/
def fill (g : ConditionGroup) : Filling :=
  fillFrom (ConditionEntry.fillings g.entries) g.logic g.conjunction

/-- Appends what the group stands for, or fails. -/
def applyOn (g : ConditionGroup) (target : PredicateGroup) : Except Error PredicateGroup :=
  match g.fill target with
  | (.error e, _) => .error e
  | (.ok _, filled) => .ok filled

end ConditionGroup

end RecordGraph
