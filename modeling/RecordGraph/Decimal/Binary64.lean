/-
# Binary fractions of 64 bits

What the bits of a finite `Float` stand for, and the `Float` nearest to a ratio of natural
numbers. Both are written in exact arithmetic on natural numbers; only the step between a
`Float` and its bits is taken from the core library.
-/

namespace RecordGraph.Decimal

/-- The number `± mantissa · 2 ^ exponent`. -/
structure Binary64 where
  /-- Whether the sign bit is set. -/
  negative : Bool
  /-- At most 53 bits. -/
  mantissa : Nat
  /-- At least -1074. -/
  exponent : Int
  deriving DecidableEq, Repr, Inhabited

namespace Binary64

/-- The bit above the 52 bits in which a `Float` keeps its mantissa. -/
def leadingBit : Nat := Nat.pow 2 52

/-- The number that the bits of a `Float` stand for; nothing for infinities and NaN. -/
def ofFloat? (x : Float) : Option Binary64 :=
  let bits := x.toBits.toNat
  let negative : Bool := bits / Nat.pow 2 63 == 1
  let field : Nat := bits / leadingBit % 2048
  let fraction : Nat := bits % leadingBit
  if field == 2047 then none
  else if field == 0 then some ⟨negative, fraction, -1074⟩
  else some ⟨negative, leadingBit + fraction, (field : Int) - 1075⟩

/-- The quotient rounded to the nearest natural number, a half to the even neighbour. -/
def roundDiv (num den : Nat) : Nat :=
  let q := num / den
  let r := num % den
  if 2 * r < den then q
  else if den < 2 * r then q + 1
  else q + q % 2

/-- The exponent of the largest power of two that is at most `num / den`. -/
def log2Ratio (num den : Nat) : Int :=
  let e : Int := (num.log2 : Int) - den.log2
  if den * Nat.pow 2 e.toNat ≤ num * Nat.pow 2 (-e).toNat then e else e - 1

/-- The `Float` nearest to `num / den`, a half to the even mantissa. -/
def nearest (num den : Nat) : Float :=
  if num == 0 then 0
  else
    let q : Int := max (log2Ratio num den - 52) (-1074)
    let m := roundDiv (num * Nat.pow 2 (-q).toNat) (den * Nat.pow 2 q.toNat)
    let bits := if m < leadingBit then m else (q + 1075).toNat * leadingBit + (m - leadingBit)
    Float.ofBits (UInt64.ofNat (min bits (2047 * leadingBit)))

/-- Twice the distance to the rounded quotient is at most the divisor. -/
theorem roundDiv_near (num den : Nat) (h : 0 < den) :
    2 * num ≤ 2 * (roundDiv num den * den) + den ∧
      2 * (roundDiv num den * den) ≤ 2 * num + den := by
  have hq := Nat.div_add_mod num den
  have hr := Nat.mod_lt num h
  have hc : den * (num / den) = num / den * den := Nat.mul_comm _ _
  unfold roundDiv
  simp only
  split
  · constructor <;> omega
  · split
    · rw [Nat.add_mul]; constructor <;> omega
    · rcases Nat.mod_two_eq_zero_or_one (num / den) with h0 | h1
      · rw [h0, Nat.add_zero]; constructor <;> omega
      · rw [h1, Nat.add_mul]; constructor <;> omega

end Binary64

end RecordGraph.Decimal
