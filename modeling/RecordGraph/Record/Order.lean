/-
# Ordering records

Records are ordered by the first value at a path. A record without a value comes first, and
values that cannot be compared count as equal.
-/
import RecordGraph.Record.Basic
import RecordGraph.Value.Comparison

namespace RecordGraph

/-- The direction of a sort order. -/
inductive SortDirection where
  /-- Smallest first. -/
  | ascending
  /-- Largest first. -/
  | descending
  deriving DecidableEq, Repr, Inhabited

namespace SortDirection

/-- The written form. -/
def text : SortDirection → String
  | .ascending => "ASC"
  | .descending => "DESC"

/-- The direction that a text spells. -/
def parse? (s : String) : Option SortDirection :=
  [ascending, descending].find? fun d => d.text == s

/-- The direction applied to an order. -/
def apply : SortDirection → Ordering → Ordering
  | .ascending, o => o
  | .descending, o => o.swap

end SortDirection

namespace Record

/-- The order of two records by the first value at a path. -/
def compareAt (path : String) (a b : Record) : Ordering :=
  match (a.valuesAt path).head?, (b.valuesAt path).head? with
  | none, none => .eq
  | none, some _ => .lt
  | some _, none => .gt
  | some x, some y => (x.compare? y).getD .eq

/-- The order of two records by several paths, the first one that tells them apart. -/
def compareBy (sorts : List (String × SortDirection)) (a b : Record) : Ordering :=
  match sorts with
  | [] => .eq
  | (path, direction) :: rest =>
    match direction.apply (compareAt path a b) with
    | .eq => compareBy rest a b
    | o => o

/-- Whether a record may stand before another one. -/
def precedes (sorts : List (String × SortDirection)) (a b : Record) : Bool :=
  compareBy sorts a b != .gt

end Record

end RecordGraph
