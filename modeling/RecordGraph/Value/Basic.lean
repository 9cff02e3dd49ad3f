/-
# Field values

What a record field can hold: the values of JSON, with whole numbers kept apart from
floating-point ones. The members of an object are sorted by key and no key occurs twice;
`Value.ofMembers` brings members into that form.

Equality here is equality of form: the whole number one and the float one are different
values. The looser comparison that conditions use is in `Value.Comparison`.
-/

namespace RecordGraph

/-- A field value. -/
inductive Value where
  /-- No value. -/
  | null
  /-- A truth value. -/
  | bool (b : Bool)
  /-- A whole number, between -2^63 and 2^64 - 1. -/
  | int (n : Int)
  /-- A floating-point number. -/
  | float (x : Float)
  /-- A text. -/
  | text (s : String)
  /-- A list of values. -/
  | list (items : List Value)
  /-- An object; its members are sorted by key. -/
  | object (members : List (String × Value))
  deriving Inhabited

namespace Value

mutual

/-- Equality of form. Floats are compared as numbers, so both zeros are equal. -/
def same : Value → Value → Bool
  | .null, .null => true
  | .bool a, .bool b => a == b
  | .int m, .int n => m == n
  | .float x, .float y => x == y
  | .text s, .text t => s == t
  | .list as, .list bs => sameItems as bs
  | .object as, .object bs => sameMembers as bs
  | _, _ => false

/-- Equality of form, item by item. -/
def sameItems : List Value → List Value → Bool
  | [], [] => true
  | a :: as, b :: bs => same a b && sameItems as bs
  | _, _ => false

/-- Equality of form, member by member. -/
def sameMembers : List (String × Value) → List (String × Value) → Bool
  | [], [] => true
  | (k, a) :: as, (l, b) :: bs => k == l && same a b && sameMembers as bs
  | _, _ => false

end

mutual

/-- How many values lie inside one another. -/
def depth : Value → Nat
  | .list items => depthOfItems items + 1
  | .object members => depthOfMembers members + 1
  | _ => 1

/-- The largest depth of several values. -/
def depthOfItems : List Value → Nat
  | [] => 0
  | v :: rest => max v.depth (depthOfItems rest)

/-- The largest depth of the values of several members. -/
def depthOfMembers : List (String × Value) → Nat
  | [] => 0
  | (_, v) :: rest => max v.depth (depthOfMembers rest)

end

/-- Writes a member into members sorted by key. -/
def insertMember (k : String) (v : Value) : List (String × Value) → List (String × Value)
  | [] => [(k, v)]
  | (j, w) :: rest =>
    if k < j then (k, v) :: (j, w) :: rest
    else if j = k then (k, v) :: rest
    else (j, w) :: insertMember k v rest

/-- The object with the given members; of two members with one key the later one stays. -/
def ofMembers (members : List (String × Value)) : Value :=
  .object (members.foldl (fun sorted m => insertMember m.1 m.2 sorted) [])

/-- A list of texts. -/
def texts (ss : List String) : Value := .list (ss.map .text)

/-- A text, or null. -/
def ofText? : Option String → Value
  | none => .null
  | some s => .text s

/-- Whether the value is null. -/
def isNull : Value → Bool
  | .null => true
  | _ => false

/-- Whether the value is a list. -/
def isList : Value → Bool
  | .list _ => true
  | _ => false

/-- The items of a list; anything else has none. -/
def items : Value → List Value
  | .list items => items
  | _ => []

/-- The member of an object under a key. -/
def member? (v : Value) (key : String) : Option Value :=
  match v with
  | .object members => (members.find? (fun m => m.1 == key)).map Prod.snd
  | _ => none

/-- Whether nothing worth keeping is there: no value, null, or an empty text, list or
object, where a text of blanks counts as empty. -/
def isBlank (isBlankText : String → Bool) : Option Value → Bool
  | none => true
  | some .null => true
  | some (.text s) => isBlankText s
  | some (.list items) => items.isEmpty
  | some (.object members) => members.isEmpty
  | some _ => false

end Value

end RecordGraph
