/-
# The shortest decimal that reads back

A binary fraction stands for the interval of reals that round to it. Among the decimal
grids, from coarse to fine, the first one with a point in that interval gives the fewest
digits; of the points of that grid the one nearest to the fraction itself is taken, a tie
going to the even one. Only the two points around the fraction need to be looked at.
-/
import RecordGraph.Decimal.Binary64

namespace RecordGraph.Decimal

/-- The number `digits · 10 ^ exponent`. -/
structure Scientific where
  /-- The digits, read as one number. -/
  digits : Nat
  /-- The place of the last digit. -/
  exponent : Int
  deriving DecidableEq, Repr, Inhabited

/-- A scale on which `4 · mantissa · 2 ^ (exponent - 2)` and the points of the grid of
`10 ^ k` are natural numbers: factors for the former and for the latter. -/
def gridFactors (exponent k : Int) : Nat × Nat :=
  (Nat.pow 2 (exponent - 2).toNat * Nat.pow 10 (-k).toNat,
    Nat.pow 2 (2 - exponent).toNat * Nat.pow 10 k.toNat)

/-- The point of the grid of `10 ^ k` that rounds to the fraction and is nearest to it. -/
def gridPoint? (b : Binary64) (k : Int) : Option Nat :=
  let (forValue, forPoint) := gridFactors b.exponent k
  let value := 4 * b.mantissa * forValue
  let below := if b.mantissa == Binary64.leadingBit && decide (-1074 < b.exponent) then 1 else 2
  let low := (4 * b.mantissa - below) * forValue
  let high := (4 * b.mantissa + 2) * forValue
  let inside (d : Nat) : Bool :=
    if b.mantissa % 2 == 0 then low ≤ d * forPoint && d * forPoint ≤ high
    else low < d * forPoint && d * forPoint < high
  let d := value / forPoint
  let left := value - d * forPoint
  let right := (d + 1) * forPoint - value
  let nearer := if left < right then d else if right < left then d + 1 else d + d % 2
  if inside nearer then some nearer
  else if inside d then some d
  else if inside (d + 1) then some (d + 1)
  else none

/-- A grid coarser than any with a point in the interval of the fraction. -/
def coarsest (b : Binary64) : Int := (b.exponent + 53) * 30103 / 100000 + 2

/-- The shortest decimal that rounds to a positive fraction. Forty grids are enough: the
coarsest one is at most 19 places above the leading digit, and 17 digits always do. -/
def shortest (b : Binary64) : Scientific :=
  let tried := (List.range 40).findSome? fun i : Nat =>
    let k : Int := coarsest b - i
    (gridPoint? b k).map fun d => Scientific.mk d k
  tried.getD ⟨0, 0⟩

end RecordGraph.Decimal
