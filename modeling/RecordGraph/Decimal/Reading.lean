/-
# Reading decimal numbers

A number in decimal notation, with an optional sign, point and exponent, is read as the
nearest `Float`. The words for infinity and NaN are read in any mix of capitals. Digits may
be missing on one side of the point, not on both.
-/
import RecordGraph.Decimal.Binary64
import RecordGraph.Text.Numeral

namespace RecordGraph.Decimal

/-- Whether a character is a decimal digit of ASCII. -/
def isDigit (c : Char) : Bool := '0' ≤ c && c ≤ '9'

/-- The number that digits spell. -/
def digitsValue (cs : List Char) : Nat := (Text.digitsFrom? 0 cs).getD 0

/-- The `Float` nearest to `m · 10 ^ e`. Exponents far outside the range of a `Float` are
answered without forming the power of ten. -/
def toFloat (m : Nat) (e : Int) : Float :=
  let places : Int := (Nat.toDigits 10 m).length + e
  if m == 0 || places < -330 then 0
  else if 310 < places then Float.ofBits 0x7FF0000000000000
  else Binary64.nearest (m * Nat.pow 10 e.toNat) (Nat.pow 10 (-e).toNat)

/-- An exponent after its letter: an optional sign and at least one digit. -/
def exponent? (cs : List Char) : Option Int :=
  let unsigned (ds : List Char) : Option Nat :=
    if ds.isEmpty || !ds.all isDigit then none else some (digitsValue ds)
  match cs with
  | '-' :: ds => (unsigned ds).map fun n => -(n : Int)
  | '+' :: ds => (unsigned ds).map fun n => (n : Int)
  | ds => (unsigned ds).map fun n => (n : Int)

/-- Digits with an optional point and exponent, as `m · 10 ^ e`. -/
def unsigned? (cs : List Char) : Option (Nat × Int) :=
  let whole := cs.takeWhile isDigit
  let rest := cs.dropWhile isDigit
  let fraction := match rest with
    | '.' :: ds => ds.takeWhile isDigit
    | _ => []
  let rest := match rest with
    | '.' :: ds => ds.dropWhile isDigit
    | ds => ds
  if whole.isEmpty && fraction.isEmpty then none
  else
    let e? := match rest with
      | [] => some 0
      | c :: ds => if c == 'e' || c == 'E' then exponent? ds else none
    e?.map fun e => (digitsValue (whole ++ fraction), e - fraction.length)

/-- A number without its sign. -/
def magnitude? (cs : List Char) : Option Float :=
  let word := String.ofList (cs.map Char.toLower)
  if word == "inf" || word == "infinity" then some (Float.ofBits 0x7FF0000000000000)
  else if word == "nan" then some (Float.ofBits 0x7FF8000000000000)
  else (unsigned? cs).map fun n => toFloat n.1 n.2

/-- The number that a text spells, if it spells one. -/
def float? (s : String) : Option Float :=
  match s.toList with
  | '-' :: cs => (magnitude? cs).map fun x => -x
  | '+' :: cs => magnitude? cs
  | cs => magnitude? cs

end RecordGraph.Decimal
