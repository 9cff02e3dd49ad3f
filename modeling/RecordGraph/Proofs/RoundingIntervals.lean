/-
# The decimals that round to a binary fraction

A finite `Float` stands for the interval of numbers that round to it. The intervals of different
fractions have no number in common: they meet at most in an end, and an end belongs to the
fraction with the even mantissa. Every interval of a fraction has a point on one of the forty
decimal grids that are looked at, and the shortest decimal is such a point. So it determines the
fraction, and with the sign the `Float`.

That no shorter decimal would do is not shown here.
-/
import Mathlib.Algebra.Order.Field.Power
import Mathlib.Data.Rat.Cast.Order
import Mathlib.Tactic.Ring
import Mathlib.Tactic.Linarith
import RecordGraph.Decimal.Shortest

namespace RecordGraph.Decimal

namespace Binary64

theorem leadingBit_eq : leadingBit = 4503599627370496 := rfl

/-- The fraction is written as the bits of a `Float` have it. -/
structure Canonical (b : Binary64) : Prop where
  fits : b.mantissa < 9007199254740992
  least : -1074 ≤ b.exponent
  largest : b.exponent ≤ 971
  leading : b.mantissa < leadingBit → b.exponent = -1074

/-- The three fields of a finite `Float`, and the fraction that they give. Without a field for the
exponent the leading bit is left out, and the exponent is the same as with the least one. -/
theorem fields_of_ofFloat? {x : Float} {b : Binary64} (h : ofFloat? x = some b) :
    ∃ sign field fraction, x.toBits.toNat = (2048 * sign + field) * leadingBit + fraction ∧
      sign < 2 ∧ field < 2047 ∧ fraction < leadingBit ∧ b.negative = (sign == 1) ∧
      b.mantissa = min field 1 * leadingBit + fraction ∧
      b.exponent = ((max field 1 : Nat) : Int) - 1075 := by
  have hsize := x.toBits.toNat_lt
  have hsign : x.toBits.toNat / Nat.pow 2 63 = x.toBits.toNat / 9223372036854775808 := rfl
  rw [ofFloat?, hsign] at h
  simp only [leadingBit_eq, beq_iff_eq] at h ⊢
  generalize x.toBits.toNat = bits at h hsize
  by_cases hinfinite : bits / 4503599627370496 % 2048 = 2047
  · rw [if_pos hinfinite] at h
    cases h
  rw [if_neg hinfinite] at h
  refine ⟨bits / 9223372036854775808, bits / 4503599627370496 % 2048, bits % 4503599627370496,
    by omega, by omega, by omega, by omega, ?_⟩
  by_cases hsubnormal : bits / 4503599627370496 % 2048 = 0
  · rw [if_pos hsubnormal] at h
    obtain rfl := Option.some.inj h
    exact ⟨rfl, by simp only; omega, by simp only; omega⟩
  · rw [if_neg hsubnormal] at h
    obtain rfl := Option.some.inj h
    exact ⟨rfl, by simp only; omega, by simp only; omega⟩

theorem canonical_of_ofFloat? {x : Float} {b : Binary64} (h : ofFloat? x = some b) :
    b.Canonical := by
  obtain ⟨sign, field, fraction, -, -, hfield, hfraction, -, hmantissa, hexponent⟩ :=
    fields_of_ofFloat? h
  rw [leadingBit_eq] at hfraction hmantissa
  refine ⟨by omega, by omega, by omega, fun hleading => ?_⟩
  rw [leadingBit_eq] at hleading
  omega

theorem toBits_inj {x y : Float} (h : x.toBits = y.toBits) : x = y := by
  obtain ⟨⟨a, ha⟩⟩ := x
  obtain ⟨⟨b, hb⟩⟩ := y
  obtain rfl : a = b := h
  rfl

/-- Different floats are different fractions. -/
theorem ofFloat?_inj {x y : Float} {b : Binary64} (hx : ofFloat? x = some b)
    (hy : ofFloat? y = some b) : x = y := by
  obtain ⟨i, m, f, hbits, hi, hm, hf, hnegative, hmantissa, hexponent⟩ := fields_of_ofFloat? hx
  obtain ⟨j, n, g, hbits', hj, hn, hg, hnegative', hmantissa', hexponent'⟩ := fields_of_ofFloat? hy
  have hsign : i = j := by
    have hboth : (i == 1) = (j == 1) := hnegative.symm.trans hnegative'
    rw [Bool.eq_iff_iff, beq_iff_eq, beq_iff_eq] at hboth
    omega
  rw [leadingBit_eq] at *
  apply toBits_inj
  rw [← UInt64.toNat_inj]
  omega

/-! ## Intervals -/

/-- A quarter of the last place of the fraction. -/
def quarter (b : Binary64) : ℚ := (2 : ℚ) ^ (b.exponent - 2)

/-- How many quarters the interval reaches down. Below the leading bit alone fractions lie twice as
close. -/
def below (b : Binary64) : Nat :=
  if b.mantissa = leadingBit ∧ -1074 < b.exponent then 1 else 2

/-- The lower end of the interval, in quarters. -/
def low (b : Binary64) : Nat := 4 * b.mantissa - b.below

/-- The upper end of the interval, in quarters. -/
def high (b : Binary64) : Nat := 4 * b.mantissa + 2

/-- The number lies in the interval of the fraction, whose ends belong to it if the mantissa is
even. -/
def Rounds (b : Binary64) (v : ℚ) : Prop :=
  b.low * b.quarter ≤ v ∧ v ≤ b.high * b.quarter ∧
    (b.mantissa % 2 = 1 → b.low * b.quarter < v ∧ v < b.high * b.quarter)

theorem quarter_pos (b : Binary64) : 0 < b.quarter := zpow_pos (by norm_num) _

variable {a b : Binary64}

/-- A fraction with the same last place and a larger mantissa begins where this one ends, or
behind. -/
theorem Canonical.high_le_low (ha : a.Canonical)
    (hexponent : a.exponent = b.exponent) (hless : a.mantissa < b.mantissa) :
    a.high ≤ b.low ∧ (a.mantissa % 2 = 0 → b.mantissa % 2 = 0 → a.high < b.low) := by
  have hleading := ha.leading
  have hbelow : b.below = 2 := by
    rw [below, if_neg]
    omega
  rw [high, low, hbelow]
  omega

/-- A fraction with a larger last place begins where this one ends, or behind. -/
theorem Canonical.high_le_two_mul_low (hb : b.Canonical) (ha : a.Canonical)
    (hless : a.exponent < b.exponent) :
    a.high ≤ 2 * b.low ∧ (a.mantissa % 2 = 0 → b.mantissa % 2 = 0 → a.high < 2 * b.low) := by
  have hleading := hb.leading
  have hleast := ha.least
  have hfits := ha.fits
  rw [high, low, below]
  rw [leadingBit_eq] at *
  split <;> omega

/-- Of two fractions the one with the smaller last place, or with the same and the smaller
mantissa, lies below the other one. -/
def Before (a b : Binary64) : Prop :=
  a.exponent < b.exponent ∨ a.exponent = b.exponent ∧ a.mantissa < b.mantissa

theorem Canonical.ends_before (hb : b.Canonical) (ha : a.Canonical) (h : a.Before b) :
    a.high * a.quarter ≤ b.low * b.quarter ∧
      (a.mantissa % 2 = 0 → b.mantissa % 2 = 0 → a.high * a.quarter < b.low * b.quarter) := by
  have hpos := a.quarter_pos
  rcases h with hless | ⟨hexponent, hless⟩
  · obtain ⟨hle, hlt⟩ := hb.high_le_two_mul_low ha hless
    have htwice : 2 * a.quarter ≤ b.quarter := by
      rw [quarter, quarter, ← zpow_one_add₀ (by norm_num)]
      exact zpow_le_zpow_right₀ (by norm_num) (by omega)
    have hlow : (b.low : ℚ) * (2 * a.quarter) ≤ b.low * b.quarter :=
      mul_le_mul_of_nonneg_left htwice (Nat.cast_nonneg _)
    have hscaled : ((2 * b.low : Nat) : ℚ) * a.quarter = b.low * (2 * a.quarter) := by
      push_cast
      ring
    rw [← hscaled] at hlow
    refine ⟨le_trans ?_ hlow, fun h₁ h₂ => lt_of_lt_of_le ?_ hlow⟩
    · exact mul_le_mul_of_nonneg_right (by exact_mod_cast hle) hpos.le
    · exact mul_lt_mul_of_pos_right (by exact_mod_cast hlt h₁ h₂) hpos
  · obtain ⟨hle, hlt⟩ := ha.high_le_low hexponent hless
    have hsame : b.quarter = a.quarter := by rw [quarter, quarter, hexponent]
    rw [hsame]
    refine ⟨mul_le_mul_of_nonneg_right (by exact_mod_cast hle) hpos.le, fun h₁ h₂ => ?_⟩
    exact mul_lt_mul_of_pos_right (by exact_mod_cast hlt h₁ h₂) hpos

theorem Canonical.not_rounds_of_before (hb : b.Canonical) (ha : a.Canonical) (h : a.Before b)
    {v : ℚ} (hv : a.Rounds v) : ¬ b.Rounds v := by
  rintro ⟨hlow, -, hodd⟩
  obtain ⟨-, hhigh, hodd'⟩ := hv
  obtain ⟨hends, hapart⟩ := hb.ends_before ha h
  rcases Nat.mod_two_eq_zero_or_one a.mantissa with hzero | hone
  · rcases Nat.mod_two_eq_zero_or_one b.mantissa with hzero' | hone'
    · exact absurd (hhigh.trans_lt ((hapart hzero hzero').trans_le hlow)) (lt_irrefl v)
    · exact absurd (hhigh.trans_lt (hends.trans_lt (hodd hone').1)) (lt_irrefl v)
  · exact absurd ((hodd' hone).2.trans_le (hends.trans hlow)) (lt_irrefl v)

/-- No number rounds to two fractions. -/
theorem Canonical.eq_of_rounds (ha : a.Canonical) (hb : b.Canonical) {v : ℚ} (hav : a.Rounds v)
    (hbv : b.Rounds v) : a.mantissa = b.mantissa ∧ a.exponent = b.exponent := by
  have hab : ¬ a.Before b := fun h => hb.not_rounds_of_before ha h hav hbv
  have hba : ¬ b.Before a := fun h => ha.not_rounds_of_before hb h hbv hav
  unfold Before at hab hba
  omega

/-! ## Grids -/

/-- Whether a point of the grid of `10 ^ k` lies in the interval of a fraction. -/
def holdsPoint (b : Binary64) (k : Int) (d : Nat) : Bool :=
  let (forValue, forPoint) := gridFactors b.exponent k
  if b.mantissa % 2 == 0 then
    b.low * forValue ≤ d * forPoint && d * forPoint ≤ b.high * forValue
  else b.low * forValue < d * forPoint && d * forPoint < b.high * forValue

/-- Three points are looked at, among them the one below the fraction. -/
theorem exists_gridPoint?_eq (b : Binary64) (k : Int) : ∃ nearer d,
    d = 4 * b.mantissa * (gridFactors b.exponent k).1 / (gridFactors b.exponent k).2 ∧
      gridPoint? b k = if b.holdsPoint k nearer then some nearer
        else if b.holdsPoint k d then some d
        else if b.holdsPoint k (d + 1) then some (d + 1)
        else none := by
  have hbelow : b.below =
      if b.mantissa == leadingBit && decide (-1074 < b.exponent) then 1 else 2 := by
    simp [below]
  unfold gridPoint? holdsPoint low high
  rw [hbelow]
  exact ⟨_, _, rfl, rfl⟩

/-- The exponent of a power splits in a part above and a part below zero. -/
theorem pow_toNat (a : ℚ) (ha : a ≠ 0) (n : Int) : a ^ n.toNat = a ^ n * a ^ (-n).toNat := by
  rcases le_total 0 n with h | h
  · obtain ⟨m, rfl⟩ := Int.eq_ofNat_of_zero_le h
    simp
  · obtain ⟨m, hm⟩ := Int.eq_ofNat_of_zero_le (Int.neg_nonneg_of_nonpos h)
    obtain rfl : n = -m := by omega
    simp [ha]

/-- Both factors bring their quantity to one scale. -/
theorem gridFactors_eq (e k : Int) : ∃ scale : ℚ, 0 < scale ∧
    ((gridFactors e k).1 : ℚ) = 2 ^ (e - 2) * scale ∧
      ((gridFactors e k).2 : ℚ) = 10 ^ k * scale := by
  refine ⟨2 ^ (2 - e).toNat * 10 ^ (-k).toNat, by positivity, ?_, ?_⟩
  · have hsplit := pow_toNat 2 (by norm_num) (e - 2)
    rw [neg_sub] at hsplit
    rw [gridFactors]
    push_cast [Nat.pow_eq]
    rw [hsplit]
    ring
  · have hsplit := pow_toNat 10 (by norm_num) k
    rw [gridFactors]
    push_cast [Nat.pow_eq]
    rw [hsplit]
    ring

/-- The points of the grids that are said to lie in the interval do. -/
theorem rounds_of_holdsPoint {k : Int} {d : Nat} (h : b.holdsPoint k d = true) :
    b.Rounds (d * 10 ^ k) := by
  obtain ⟨scale, hscale, hvalue, hpoint⟩ := gridFactors_eq b.exponent k
  have hleft : ∀ n : Nat, ((n * (gridFactors b.exponent k).1 : Nat) : ℚ) =
      n * b.quarter * scale := fun n => by
    push_cast
    rw [hvalue, quarter]
    ring
  have hright : ((d * (gridFactors b.exponent k).2 : Nat) : ℚ) = d * 10 ^ k * scale := by
    push_cast
    rw [hpoint]
    ring
  have hle : ∀ n : Nat, n * (gridFactors b.exponent k).1 ≤ d * (gridFactors b.exponent k).2 ↔
      n * b.quarter ≤ d * 10 ^ k := fun n => by
    rw [← Nat.cast_le (α := ℚ), hleft, hright, mul_le_mul_iff_left₀ hscale]
  have hge : ∀ n : Nat, d * (gridFactors b.exponent k).2 ≤ n * (gridFactors b.exponent k).1 ↔
      d * 10 ^ k ≤ n * b.quarter := fun n => by
    rw [← Nat.cast_le (α := ℚ), hleft, hright, mul_le_mul_iff_left₀ hscale]
  unfold holdsPoint at h
  simp only [beq_iff_eq] at h
  split at h
  · rename_i heven
    simp only [Bool.and_eq_true, decide_eq_true_eq, hle, hge] at h
    exact ⟨h.1, h.2, fun hodd => absurd (heven.symm.trans hodd) (by decide)⟩
  · simp only [Bool.and_eq_true, decide_eq_true_eq, ← not_le, hle, hge] at h
    exact ⟨(not_le.mp h.1).le, (not_le.mp h.2).le, fun _ => ⟨not_le.mp h.1, not_le.mp h.2⟩⟩

theorem rounds_of_gridPoint? {k : Int} {d : Nat} (h : gridPoint? b k = some d) :
    b.Rounds (d * 10 ^ k) := by
  obtain ⟨nearer, d', -, hgrid⟩ := b.exists_gridPoint?_eq k
  rw [hgrid] at h
  apply rounds_of_holdsPoint
  split at h
  · exact Option.some.inj h ▸ ‹_›
  · split at h
    · exact Option.some.inj h ▸ ‹_›
    · split at h
      · exact Option.some.inj h ▸ ‹_›
      · cases h

/-- If the grid is no coarser than the quarters of the last place, the point below the fraction
lies in its interval. -/
theorem holdsPoint_below {k : Int} (hsome : b.mantissa ≠ 0)
    (hpositive : 0 < (gridFactors b.exponent k).2)
    (hstep : (gridFactors b.exponent k).2 ≤ (gridFactors b.exponent k).1) :
    b.holdsPoint k
      (4 * b.mantissa * (gridFactors b.exponent k).1 / (gridFactors b.exponent k).2) = true := by
  unfold holdsPoint
  generalize gridFactors b.exponent k = factors at *
  obtain ⟨forValue, forPoint⟩ := factors
  simp only at *
  generalize hd : 4 * b.mantissa * forValue / forPoint = d
  have hpointBelow : d * forPoint ≤ 4 * b.mantissa * forValue := by
    rw [← hd]
    exact Nat.div_mul_le_self _ _
  have hnext : 4 * b.mantissa * forValue < d * forPoint + forPoint := by
    rw [← hd]
    exact Nat.lt_div_mul_add hpositive
  have hlow : b.low * forValue + forValue ≤ 4 * b.mantissa * forValue := by
    rw [← Nat.succ_mul]
    refine Nat.mul_le_mul_right forValue ?_
    rw [low, below]
    split <;> omega
  have hhigh : b.high * forValue = 4 * b.mantissa * forValue + 2 * forValue := by
    rw [high, Nat.add_mul]
  split
  · simp only [Bool.and_eq_true, decide_eq_true_eq]
    omega
  · simp only [Bool.and_eq_true, decide_eq_true_eq]
    omega

/-- Such a grid has a point in the interval. -/
theorem isSome_gridPoint? {k : Int} (hsome : b.mantissa ≠ 0) (hfine : (10 : ℚ) ^ k ≤ b.quarter) :
    (gridPoint? b k).isSome = true := by
  obtain ⟨scale, hscale, hvalue, hpoint⟩ := gridFactors_eq b.exponent k
  obtain ⟨nearer, d, hd, hgrid⟩ := b.exists_gridPoint?_eq k
  have hstep : (gridFactors b.exponent k).2 ≤ (gridFactors b.exponent k).1 := by
    rw [← Nat.cast_le (α := ℚ), hvalue, hpoint]
    exact mul_le_mul_of_nonneg_right hfine hscale.le
  have hpositive : 0 < (gridFactors b.exponent k).2 := by
    rw [← Nat.cast_pos (α := ℚ), hpoint]
    exact mul_pos (by positivity) hscale
  rw [hgrid, hd, if_pos (holdsPoint_below hsome hpositive hstep)]
  split
  · rfl
  · rfl

/-- Powers of ten are compared with powers of two through powers that lie close to each other. -/
theorem pow_ten_le {k e : Int} (hpos : 0 ≤ k → 10 * k ≤ 3 * e) (hneg : k ≤ 0 → 13 * k ≤ 4 * e) :
    (10 : ℚ) ^ k ≤ 2 ^ e := by
  have hten : (0 : ℚ) ≤ 10 ^ k := by positivity
  have htwo : (0 : ℚ) ≤ 2 ^ e := by positivity
  rcases le_total 0 k with hsign | hsign
  · rw [← pow_le_pow_iff_left₀ hten htwo (show (3 : Nat) ≠ 0 by decide)]
    calc ((10 : ℚ) ^ k) ^ 3 = (10 ^ 3) ^ k := by
          rw [← zpow_natCast, ← zpow_mul, mul_comm, zpow_mul, zpow_natCast]
      _ ≤ (2 ^ 10) ^ k := zpow_le_zpow_left₀ hsign (by positivity) (by norm_num)
      _ = 2 ^ (10 * k) := by rw [zpow_mul, zpow_ofNat]
      _ ≤ 2 ^ (e * 3) := zpow_le_zpow_right₀ (by norm_num) (by have := hpos hsign; omega)
      _ = (2 ^ e) ^ 3 := by rw [zpow_mul, zpow_ofNat]
  · rw [← pow_le_pow_iff_left₀ hten htwo (show (4 : Nat) ≠ 0 by decide)]
    obtain ⟨n, hn⟩ := Int.eq_ofNat_of_zero_le (Int.neg_nonneg_of_nonpos hsign)
    obtain rfl : k = -n := by omega
    calc ((10 : ℚ) ^ (-n : Int)) ^ 4 = ((10 ^ 4) ^ n)⁻¹ := by
          rw [zpow_neg, zpow_natCast, inv_pow, pow_right_comm]
      _ ≤ ((2 ^ 13) ^ n)⁻¹ :=
          inv_anti₀ (by positivity) (pow_le_pow_left₀ (by positivity) (by norm_num) n)
      _ = 2 ^ (13 * (-n : Int)) := by rw [mul_neg, zpow_neg, zpow_mul, zpow_ofNat, zpow_natCast]
      _ ≤ 2 ^ (e * 4) := zpow_le_zpow_right₀ (by norm_num) (by have := hneg hsign; omega)
      _ = (2 ^ e) ^ 4 := by rw [zpow_mul, zpow_ofNat]

/-- The finest of the forty grids is as fine as that, whatever the exponent. -/
theorem Canonical.pow_le_quarter (hb : b.Canonical) :
    (10 : ℚ) ^ (coarsest b - 39) ≤ b.quarter := by
  have hleast := hb.least
  have hlargest := hb.largest
  rw [quarter, coarsest]
  exact pow_ten_le (by omega) (by omega)

/-- The shortest decimal rounds to the fraction. -/
theorem Canonical.rounds_shortest (hb : b.Canonical) (hsome : b.mantissa ≠ 0) :
    b.Rounds ((shortest b).digits * 10 ^ (shortest b).exponent) := by
  unfold shortest
  simp only
  cases htried : (List.range 40).findSome? fun i : Nat =>
      (gridPoint? b (coarsest b - i)).map fun d => Scientific.mk d (coarsest b - i) with
  | none =>
      have hlast := List.findSome?_eq_none_iff.mp htried 39 (by simp)
      have hpoint := isSome_gridPoint? hsome hb.pow_le_quarter
      rw [Option.map_eq_none_iff] at hlast
      rw [show ((39 : Nat) : Int) = 39 from rfl] at hlast
      rw [hlast] at hpoint
      cases hpoint
  | some found =>
      obtain ⟨i, -, hi⟩ := List.exists_of_findSome?_eq_some htried
      obtain ⟨d, hd, rfl⟩ := Option.map_eq_some_iff.mp hi
      exact rounds_of_gridPoint? hd

/-- The decimal that a fraction is written as. -/
def decimal (b : Binary64) : ℚ :=
  if b.mantissa = 0 then 0 else (shortest b).digits * 10 ^ (shortest b).exponent

/-- It rounds to the fraction. -/
theorem Canonical.rounds_decimal (hb : b.Canonical) : b.Rounds b.decimal := by
  unfold decimal
  split
  · rename_i hzero
    have hlow : b.low = 0 := by
      rw [low, hzero]
      exact Nat.zero_sub _
    refine ⟨by simp [hlow], mul_nonneg (Nat.cast_nonneg _) b.quarter_pos.le, fun hodd => ?_⟩
    rw [hzero] at hodd
    cases hodd
  · exact hb.rounds_shortest ‹_›

/-- Different fractions are written as different decimals, their signs left aside. -/
theorem Canonical.eq_of_decimal_eq (ha : a.Canonical) (hb : b.Canonical)
    (h : a.decimal = b.decimal) : a.mantissa = b.mantissa ∧ a.exponent = b.exponent :=
  ha.eq_of_rounds hb ha.rounds_decimal (h ▸ hb.rounds_decimal)

end Binary64

end RecordGraph.Decimal
