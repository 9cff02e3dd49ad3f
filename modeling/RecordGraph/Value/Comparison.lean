/-
# Comparing values

How conditions and sort orders compare two values. If both can be read as numbers, they are
compared as numbers; a text counts as the number it spells, blanks around it aside. Else two
texts are compared character by character, and two truth values with false first. All other
pairs have no order.
-/
import RecordGraph.Decimal.Reading
import RecordGraph.Text.Blank
import RecordGraph.Value.Basic

namespace RecordGraph.Value

/-- A whole number as the nearest float. -/
def floatOfInt : Int → Float
  | .ofNat n => Decimal.toFloat n 0
  | .negSucc n => -Decimal.toFloat (n + 1) 0

/-- The number that a value can be read as. -/
def asNumber? : Value → Option Float
  | .int n => some (floatOfInt n)
  | .float x => some x
  | .text s => Decimal.float? (Text.trim s)
  | _ => none

/-- The order of two floats; NaN has none. -/
def compareFloats (x y : Float) : Option Ordering :=
  if x < y then some .lt
  else if x == y then some .eq
  else if y < x then some .gt
  else none

/-- The order of two values, if they have one. -/
def compare? (a b : Value) : Option Ordering :=
  match a.asNumber?, b.asNumber? with
  | some x, some y => compareFloats x y
  | _, _ =>
    match a, b with
    | .text s, .text t => some (compare s t)
    | .bool x, .bool y => some (compare x y)
    | _, _ => none

/-- Equality as conditions see it: of form, or as numbers or texts. -/
def looselyEqual (a b : Value) : Bool := same a b || a.compare? b == some .eq

end RecordGraph.Value
