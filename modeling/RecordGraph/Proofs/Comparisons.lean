/-
# How values compare

Numbers have places on a line, NaN apart, and the order of two numbers is the order of their
places. Texts and truth values have their own orders. Turning a pair round turns its order
round, whatever the values. But comparing is not transitive: the texts `10` and `9` are compared
as the numbers that they spell, and each of them with the text `1a` character by character. So
the order of several values can be relied on where all pairs are compared in one way.
-/
import Mathlib.Data.Int.Order.Basic
import Mathlib.Data.List.Pairwise
import Mathlib.Data.Nat.Basic
import Mathlib.Order.Compare
import RecordGraph.Proofs.Sorting
import RecordGraph.Value.Comparison

namespace RecordGraph

open Float.Model (UnpackedFloat)

namespace Value

/-! ## Places of numbers -/

/-- The place of a number among all: its kind from minus to plus infinity, and among the numbers
of one sign its exponent and its mantissa. Both zeros are in one place. -/
def place? : UnpackedFloat → Option (Int × Int × Int)
  | .notANumber => none
  | .infinity .negative => some (-2, 0, 0)
  | .finite .negative mantissa exponent _ => some (-1, -exponent, -mantissa)
  | .zero _ => some (0, 0, 0)
  | .finite .positive mantissa exponent _ => some (1, exponent, mantissa)
  | .infinity .positive => some (2, 0, 0)

/-- The order of two places. -/
def comparePlaces : Int × Int × Int → Int × Int × Int → Ordering :=
  compareLex (compareOn (·.1)) (compareLex (compareOn (·.2.1)) (compareOn (·.2.2)))

instance : Std.TransCmp comparePlaces := inferInstanceAs (Std.TransCmp (compareLex _ _))

theorem compare_int_neg (a b : Int) : compare (-a) (-b) = (compare a b).swap := by
  rcases lt_trichotomy a b with h | rfl | h
  · rw [compare_lt_iff_lt.mpr h, compare_gt_iff_gt.mpr (by omega)]
    rfl
  · simp
  · rw [compare_gt_iff_gt.mpr h, compare_lt_iff_lt.mpr (by omega)]
    rfl

theorem compare_int_natCast (m n : Nat) : compare (m : Int) (n : Int) = compare m n := by
  rcases lt_trichotomy m n with h | rfl | h
  · rw [compare_lt_iff_lt.mpr h, compare_lt_iff_lt.mpr (by omega)]
  · simp
  · rw [compare_gt_iff_gt.mpr h, compare_gt_iff_gt.mpr (by omega)]

/-- Numbers are in the order of their places. -/
theorem unpacked_compare_eq (x y : UnpackedFloat) :
    x.compare y = (place? x).bind fun p => (place? y).map (comparePlaces p) := by
  rcases x with (_ | _) | _ | _ | ⟨_ | _, m, e, _⟩ <;>
    rcases y with (_ | _) | _ | _ | ⟨_ | _, n, f, _⟩ <;>
    first
    | rfl
    | skip
  case finite.negative.finite.negative =>
    change some ((compare e f).then (compare m n)).swap =
      some ((compare (-1 : Int) (-1)).then
        ((compare (-e) (-f)).then (compare (-(m : Int)) (-n))))
    rw [compare_int_neg e, compare_int_neg m, compare_int_natCast, Ordering.swap_then]
    rfl
  case finite.positive.finite.positive =>
    change some ((compare e f).then (compare m n)) =
      some ((compare (1 : Int) 1).then ((compare e f).then (compare (m : Int) n)))
    rw [compare_int_natCast]
    rfl

theorem compareFloats_eq (x y : Float) : compareFloats x y =
    (place? x.toModel.unpack).bind fun p => (place? y.toModel.unpack).map (comparePlaces p) := by
  have hlt : x < y ↔ x.toModel.unpack.compare y.toModel.unpack = some .lt :=
    decide_eq_true_iff.trans beq_iff_eq
  have heq : (x == y) = true ↔ x.toModel.unpack.compare y.toModel.unpack = some .eq := by
    change (x.toModel.unpack.compare y.toModel.unpack == some .eq) = true ↔ _
    exact beq_iff_eq
  have hgt : y < x ↔ y.toModel.unpack.compare x.toModel.unpack = some .lt :=
    decide_eq_true_iff.trans beq_iff_eq
  rw [unpacked_compare_eq] at hlt heq hgt
  unfold compareFloats
  simp only [hlt, heq, hgt]
  cases place? x.toModel.unpack with
  | none => simp
  | some p =>
      cases place? y.toModel.unpack with
      | none => simp
      | some q =>
          have hswap : comparePlaces q p = (comparePlaces p q).swap := Std.OrientedCmp.eq_swap
          simp only [Option.bind_some, Option.map_some, hswap]
          cases comparePlaces p q <;> rfl

/-! ## Turning a pair round -/

theorem compareFloats_swap (x y : Float) :
    compareFloats y x = (compareFloats x y).map Ordering.swap := by
  rw [compareFloats_eq, compareFloats_eq]
  cases place? x.toModel.unpack with
  | none => cases place? y.toModel.unpack <;> rfl
  | some p =>
      cases place? y.toModel.unpack with
      | none => rfl
      | some q => exact congrArg some Std.OrientedCmp.eq_swap

theorem compare?_swap (a b : Value) : b.compare? a = (a.compare? b).map Ordering.swap := by
  unfold compare?
  cases a.asNumber? with
  | some x =>
      cases b.asNumber? with
      | some y => exact compareFloats_swap x y
      | none => cases a <;> cases b <;> first | rfl | exact congrArg some Std.OrientedCmp.eq_swap
  | none =>
      cases b.asNumber? <;> cases a <;> cases b <;>
        first | rfl | exact congrArg some Std.OrientedCmp.eq_swap

/-- A value is never before or behind itself. -/
theorem compare?_self (a : Value) : (a.compare? a).getD .eq = .eq := by
  have hswap := compare?_swap a a
  cases ha : a.compare? a with
  | none => rfl
  | some o =>
      rw [ha, Option.map_some, Option.some.injEq] at hswap
      cases o <;> first | rfl | cases hswap

/-! ## Ways of comparing -/

/-- What a pair of values is compared by. -/
inductive Way where
  /-- By the numbers that both can be read as. -/
  | numbers
  /-- Character by character. -/
  | texts
  /-- False first. -/
  | truths
  deriving DecidableEq, Repr

/-- What two values are compared by, if they have an order. -/
def comparedBy? (a b : Value) : Option Way :=
  match a.asNumber?, b.asNumber? with
  | some x, some y => (compareFloats x y).map fun _ => .numbers
  | _, _ =>
    match a, b with
    | .text _, .text _ => some .texts
    | .bool _, .bool _ => some .truths
    | _, _ => none

variable {a b c : Value} {way : Option Way}

/-- Both values have a key, and are in the order of their keys. -/
def InOrderOf {κ : Type} (key : Value → Option κ) (cmp : κ → κ → Ordering) (a b : Value) : Prop :=
  ∃ p q, key a = some p ∧ key b = some q ∧ a.compare? b = some (cmp p q)

theorem InOrderOf.trans {κ : Type} {key : Value → Option κ} {cmp : κ → κ → Ordering}
    [Std.TransCmp cmp] (hab : InOrderOf key cmp a b) (hbc : InOrderOf key cmp b c)
    (hac : InOrderOf key cmp a c) (hfirst : ((a.compare? b).getD .eq).isLE)
    (hsecond : ((b.compare? c).getD .eq).isLE) : ((a.compare? c).getD .eq).isLE := by
  obtain ⟨p, q, ha, hb, hpq⟩ := hab
  obtain ⟨q', r, hb', hc, hqr⟩ := hbc
  obtain ⟨p', r', ha', hc', hpr⟩ := hac
  obtain rfl := Option.some.inj (hb.symm.trans hb')
  obtain rfl := Option.some.inj (ha.symm.trans ha')
  obtain rfl := Option.some.inj (hc.symm.trans hc')
  rw [hpq, Option.getD_some] at hfirst
  rw [hqr, Option.getD_some] at hsecond
  rw [hpr, Option.getD_some]
  exact Std.TransCmp.isLE_trans hfirst hsecond

/-- The place of the number that a value can be read as. -/
def numberPlace? (a : Value) : Option (Int × Int × Int) :=
  a.asNumber?.bind fun x => place? x.toModel.unpack

/-- The text that a value is. -/
def asText? : Value → Option String
  | .text s => some s
  | _ => none

/-- The truth value that a value is. -/
def asTruth? : Value → Option Bool
  | .bool b => some b
  | _ => none

/-- Two values are in the order that goes with a way of comparing. -/
def InOrderBy : Option Way → Value → Value → Prop
  | some .numbers => InOrderOf numberPlace? comparePlaces
  | some .texts => InOrderOf asText? compare
  | some .truths => InOrderOf asTruth? compare
  | none => fun a b => a.compare? b = none

/-- Two values that are read as numbers are in the order of their places; NaN has none. -/
theorem inOrderBy_numbers {x y : Float} (hx : a.asNumber? = some x) (hy : b.asNumber? = some y) :
    InOrderBy ((compareFloats x y).map fun _ => .numbers) a b := by
  have hcompare : a.compare? b = compareFloats x y := by simp [compare?, hx, hy]
  have ha : numberPlace? a = place? x.toModel.unpack := by simp [numberPlace?, hx]
  have hb : numberPlace? b = place? y.toModel.unpack := by simp [numberPlace?, hy]
  rw [compareFloats_eq] at hcompare ⊢
  cases hp : place? x.toModel.unpack with
  | none => simpa [hp, InOrderBy] using hcompare
  | some p =>
      cases hq : place? y.toModel.unpack with
      | none => simpa [hp, hq, InOrderBy] using hcompare
      | some q => exact ⟨p, q, ha.trans hp, hb.trans hq, by rw [hcompare, hp, hq]; rfl⟩

/-- Two values are in the order of what they are compared by. -/
theorem inOrderBy_comparedBy (a b : Value) : InOrderBy (a.comparedBy? b) a b := by
  unfold comparedBy?
  split
  · rename_i x y hx hy
    exact inOrderBy_numbers hx hy
  · rename_i hnumbers
    split
    · refine ⟨_, _, rfl, rfl, ?_⟩
      unfold compare?
      split
      · rename_i x y hx hy
        exact (hnumbers x y hx hy).elim
      · rfl
    · exact ⟨_, _, rfl, rfl, rfl⟩
    · rename_i htexts htruths
      change compare? _ _ = none
      unfold compare?
      split
      · rename_i x y hx hy
        exact (hnumbers x y hx hy).elim
      · split
        · exact (htexts _ _ rfl rfl).elim
        · exact (htruths _ _ rfl rfl).elim
        · rfl

/-- Comparing in one way is transitive; what has no order counts as equal. -/
theorem compare?_trans (hab : a.comparedBy? b = way) (hbc : b.comparedBy? c = way)
    (hac : a.comparedBy? c = way) (hfirst : ((a.compare? b).getD .eq).isLE)
    (hsecond : ((b.compare? c).getD .eq).isLE) : ((a.compare? c).getD .eq).isLE := by
  have hfst := hab ▸ inOrderBy_comparedBy a b
  have hsnd := hbc ▸ inOrderBy_comparedBy b c
  have hends := hac ▸ inOrderBy_comparedBy a c
  match way with
  | none =>
      rw [show a.compare? c = none from hends]
      rfl
  | some .numbers => exact InOrderOf.trans hfst hsnd hends hfirst hsecond
  | some .texts => exact InOrderOf.trans hfst hsnd hends hfirst hsecond
  | some .truths => exact InOrderOf.trans hfst hsnd hends hfirst hsecond

/-- Two values are compared by the same from either side. -/
theorem comparedBy?_comm (a b : Value) : b.comparedBy? a = a.comparedBy? b := by
  unfold comparedBy?
  cases a.asNumber? with
  | some x =>
      cases b.asNumber? with
      | some y => simp only [compareFloats_swap x y, Option.map_map, Function.comp_def]
      | none => cases a <;> cases b <;> rfl
  | none => cases b.asNumber? <;> cases a <;> cases b <;> rfl

end Value

namespace Record

/-! ## The order at a path -/

variable {path : String} {rs : List Record}

/-- Any two of the records that have a value at the path have the same first one there, or these
values are compared in a way that is the same for all. -/
def OneWay (path : String) (rs : List Record) : Prop :=
  ∃ way, ∀ a ∈ rs, ∀ b ∈ rs, ∀ x ∈ (a.valuesAt path).head?, ∀ y ∈ (b.valuesAt path).head?,
    x = y ∨ x.comparedBy? y = way

theorem OneWay.of_subset {some : List Record} (h : OneWay path rs) (hsome : ∀ r ∈ some, r ∈ rs) :
    OneWay path some := by
  obtain ⟨way, hway⟩ := h
  exact ⟨way, fun a ha b hb => hway a (hsome a ha) b (hsome b hb)⟩

/-- It is enough to look at the values in order. -/
theorem OneWay.of_pairwise (way : Option Value.Way)
    (h : (rs.filterMap fun r => (r.valuesAt path).head?).Pairwise fun x y =>
      x.comparedBy? y = way) : OneWay path rs := by
  have hsymm : Std.Symm fun x y : Value => x.comparedBy? y = way :=
    ⟨fun x y hxy => (Value.comparedBy?_comm x y).trans hxy⟩
  refine ⟨way, fun a ha b hb x hx y hy => Classical.or_iff_not_imp_left.mpr ?_⟩
  exact h.forall (List.mem_filterMap.mpr ⟨a, ha, hx⟩) (List.mem_filterMap.mpr ⟨b, hb, hy⟩)

theorem compareAt_swap (path : String) (a b : Record) :
    compareAt path b a = (compareAt path a b).swap := by
  unfold compareAt
  cases (a.valuesAt path).head? with
  | none => cases (b.valuesAt path).head? <;> rfl
  | some x =>
      cases (b.valuesAt path).head? with
      | none => rfl
      | some y =>
          simp only [Value.compare?_swap x y]
          cases x.compare? y <;> rfl

theorem compareAt_trans {a b c : Record} (h : OneWay path [a, b, c])
    (hab : (compareAt path a b).isLE) (hbc : (compareAt path b c).isLE) :
    (compareAt path a c).isLE := by
  obtain ⟨way, hway⟩ := h
  have hxy := hway a (by simp) b (by simp)
  have hyz := hway b (by simp) c (by simp)
  have hxz := hway a (by simp) c (by simp)
  unfold compareAt at *
  cases ha : (a.valuesAt path).head? with
  | none => cases (c.valuesAt path).head? <;> rfl
  | some x =>
      cases hb : (b.valuesAt path).head? with
      | none => simp [ha, hb] at hab
      | some y =>
          cases hc : (c.valuesAt path).head? with
          | none => simp [hb, hc] at hbc
          | some z =>
              simp only [ha, hb, hc] at *
              rcases hxy x rfl y rfl with rfl | hxy
              · exact hbc
              · rcases hyz y rfl z rfl with rfl | hyz
                · exact hab
                · rcases hxz x rfl z rfl with rfl | hxz
                  · rw [Value.compare?_self]
                    rfl
                  · exact Value.compare?_trans hxy hyz hxz hab hbc

/-- Records that are compared in one way are in order. -/
theorem OneWay.transCmp (h : OneWay path rs) :
    Std.TransCmp fun a b : { r // r ∈ rs } => compareAt path a b where
  eq_swap := compareAt_swap path _ _
  isLE_trans {a b c} := compareAt_trans (h.of_subset (by simp [a.2, b.2, c.2]))

theorem transCmp_apply {α : Type} {cmp : α → α → Ordering} (h : Std.TransCmp cmp)
    (direction : SortDirection) : Std.TransCmp fun a b => direction.apply (cmp a b) := by
  cases direction with
  | ascending => assumption
  | descending =>
      have hswap : (fun a b => SortDirection.descending.apply (cmp a b)) = fun a b => cmp b a :=
        funext fun a => funext fun b => Std.OrientedCmp.eq_swap.symm
      rw [hswap]
      exact Std.TransCmp.opposite

theorem transCmp_compareBy {sorts : List (String × SortDirection)}
    (h : ∀ sort ∈ sorts, OneWay sort.1 rs) :
    Std.TransCmp fun a b : { r // r ∈ rs } => compareBy sorts a b := by
  induction sorts with
  | nil => exact { eq_swap := rfl, isLE_trans := fun _ _ => rfl }
  | cons sort rest ih =>
      obtain ⟨path, direction⟩ := sort
      have hfirst := (h (path, direction) (by simp)).transCmp
      have hdirected := transCmp_apply hfirst direction
      have hrest := ih fun other hother => h other (by simp [hother])
      have hlex : (fun a b : { r // r ∈ rs } => compareBy ((path, direction) :: rest) a b) =
          compareLex (fun a b : { r // r ∈ rs } => direction.apply (compareAt path a b))
            fun a b => compareBy rest a b := by
        funext a b
        rw [compareBy, compareLex]
        cases direction.apply (compareAt path a b) <;> rfl
      rw [hlex]
      exact inferInstance

theorem precedes_iff {sorts : List (String × SortDirection)} {a b : Record} :
    precedes sorts a b = true ↔ (compareBy sorts a b).isLE = true := by
  unfold precedes
  cases compareBy sorts a b <;> simp

/-- Sort orders rank records that are compared in one way at each path. -/
theorem Ranked.of_oneWay {sorts : List (String × SortDirection)}
    (h : ∀ sort ∈ sorts, OneWay sort.1 rs) : Ranked sorts rs := by
  have hranks := transCmp_compareBy h
  constructor
  · intro a ha b hb c hc hab hbc
    rw [precedes_iff] at hab hbc ⊢
    exact hranks.isLE_trans (a := ⟨a, ha⟩) (b := ⟨b, hb⟩) (c := ⟨c, hc⟩) hab hbc
  · intro a ha b hb
    have hswap : compareBy sorts a b = (compareBy sorts b a).swap :=
      hranks.eq_swap (a := ⟨a, ha⟩) (b := ⟨b, hb⟩)
    rw [Bool.or_eq_true, precedes_iff, precedes_iff, hswap]
    cases compareBy sorts b a <;> simp

end Record

end RecordGraph
