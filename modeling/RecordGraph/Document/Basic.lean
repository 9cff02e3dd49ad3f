/-
# Documents

How the parts of a query, records and relationships are written down as values and read
back. A structure is an object with a member per field; it is read as well from a list of
all its fields in order. A choice without contents is written as its name, one with contents
as an object with the name as its only key. Members that a structure does not have are
passed over when it is read.
-/
import RecordGraph.Value.Basic

namespace RecordGraph.Document

/-- The members of a structure. -/
def record (fields : List (String × Value)) : Value := Value.ofMembers fields

/-- The fields of a structure by name, or by position; a missing one is none. -/
def fields? (names : List String) (v : Value) : Option (List (Option Value)) :=
  match v with
  | .object _ => some (names.map v.member?)
  | .list items => if items.length = names.length then some (items.map some) else none
  | _ => none

/-- The name of a choice and its contents. -/
def choice? (v : Value) : Option (String × Option Value) :=
  match v with
  | .text name => some (name, none)
  | .object [(name, contents)] => some (name, some contents)
  | _ => none

/-- The choice among named values without contents. -/
def named? {α : Type} (values : List α) (name : α → String) (v : Value) : Option α := do
  match ← choice? v with
  | (n, none) | (n, some .null) => values.find? fun a => name a == n
  | _ => none

/-- A choice with contents. -/
def chosen (name : String) (contents : Value) : Value := .object [(name, contents)]

/-- The contents of a choice, which must be an object. -/
def contents? (contents : Option Value) : Option Value :=
  match contents with
  | some (.object ms) => some (.object ms)
  | _ => none

/-- A text. -/
def text? : Value → Option String
  | .text s => some s
  | _ => none

/-- A truth value. -/
def bool? : Value → Option Bool
  | .bool b => some b
  | _ => none

/-- A number of a machine word. -/
def nat? : Value → Option Nat
  | .int (.ofNat n) => some n
  | _ => none

/-- The items of a list, each read in the same way. -/
def list? {α : Type} (item : Value → Option α) : Value → Option (List α)
  | .list items => items.mapM item
  | _ => none

/-- Two values. -/
def pair? {α β : Type} (first : Value → Option α) (second : Value → Option β) :
    Value → Option (α × β)
  | .list [a, b] => do return (← first a, ← second b)
  | _ => none

/-- A value that may be missing or null. -/
def optional? {α : Type} (read : Value → Option α) : Option Value → Option (Option α)
  | none | some .null => some none
  | some v => (read v).map some

end RecordGraph.Document
