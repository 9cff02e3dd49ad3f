/-
# Numbers in writing

A float is written as its shortest decimal, and the text spells exactly this decimal, whichever of
the forms it is written in. So finite floats of the same text are the same float, the two zeros
told apart by the sign. A float is never written like a whole number: it has a point or an
exponent.

Reading the text of a float back is another matter, as the reader of documents rounds twice.
-/
import RecordGraph.Decimal.Reading
import RecordGraph.Proofs.AcceptedLogic
import RecordGraph.Proofs.RoundingIntervals
import RecordGraph.Proofs.WrittenLogic
import RecordGraph.Value.Printer

namespace RecordGraph

namespace Decimal

/-! ## Reading decimals -/

theorem digitsValue_eq {cs : List Char} (h : ∀ c ∈ cs, c.isDigit = true) :
    digitsValue cs = Nat.ofDigitChars 10 cs 0 := by
  rw [digitsValue, Text.digitsFrom?_eq_some h, Option.getD_some]

/-- The number that digits with an optional point and exponent spell. -/
def spelled? (cs : List Char) : Option ℚ := (unsigned? cs).map fun n => n.1 * 10 ^ n.2

/-- The exponent behind the digits: none, or one behind its letter. -/
inductive Follows : List Char → Int → Prop
  | nothing : Follows [] 0
  | exponent {ds : List Char} {e : Int} (h : exponent? ds = some e) : Follows ('e' :: ds) e

variable {rest : List Char} {e : Int}

theorem Follows.takeWhile_isDigit (h : Follows rest e) : rest.takeWhile isDigit = [] := by
  cases h with
  | nothing => rfl
  | exponent h => rfl

theorem Follows.dropWhile_isDigit (h : Follows rest e) : rest.dropWhile isDigit = rest := by
  cases h with
  | nothing => rfl
  | exponent h => rfl

theorem takeWhile_digits {ds cs : List Char} (h : ∀ c ∈ ds, c.isDigit = true) :
    (ds ++ cs).takeWhile isDigit = ds ++ cs.takeWhile isDigit :=
  List.takeWhile_append_of_pos h

theorem dropWhile_digits {ds cs : List Char} (h : ∀ c ∈ ds, c.isDigit = true) :
    (ds ++ cs).dropWhile isDigit = cs.dropWhile isDigit :=
  List.dropWhile_append_of_pos h

theorem spelled?_point (whole fraction : List Char) (hwhole : ∀ c ∈ whole, c.isDigit = true)
    (hsome : whole ≠ []) (hfraction : ∀ c ∈ fraction, c.isDigit = true) (hrest : Follows rest e) :
    spelled? (whole ++ '.' :: (fraction ++ rest)) =
      some ((Nat.ofDigitChars 10 (whole ++ fraction) 0 : ℚ) * 10 ^ (e - fraction.length)) := by
  have hpoint : ∀ cs, ('.' :: cs).takeWhile isDigit = [] ∧
      ('.' :: cs).dropWhile isDigit = '.' :: cs := fun _ => ⟨rfl, rfl⟩
  have hdigits : ∀ c ∈ whole ++ fraction, c.isDigit = true := fun c hc =>
    (List.mem_append.mp hc).elim (hwhole c) (hfraction c)
  rw [spelled?, unsigned?]
  simp only [takeWhile_digits hwhole, dropWhile_digits hwhole, hpoint, takeWhile_digits hfraction,
    dropWhile_digits hfraction, hrest.takeWhile_isDigit, hrest.dropWhile_isDigit,
    List.append_nil, digitsValue_eq hdigits]
  rw [if_neg (by simp [hsome])]
  cases hrest with
  | nothing => rfl
  | exponent h => simp [h]

theorem spelled?_whole {whole : List Char} (hwhole : ∀ c ∈ whole, c.isDigit = true)
    (hsome : whole ≠ []) (hrest : Follows rest e) :
    spelled? (whole ++ rest) = some ((Nat.ofDigitChars 10 whole 0 : ℚ) * 10 ^ e) := by
  rw [spelled?, unsigned?]
  simp only [takeWhile_digits hwhole, dropWhile_digits hwhole, hrest.takeWhile_isDigit,
    hrest.dropWhile_isDigit, List.append_nil]
  cases hrest with
  | nothing => simp [hsome, digitsValue_eq hwhole]
  | exponent h => simp [hsome, digitsValue_eq hwhole, h]

/-- An exponent in writing is read as itself. -/
theorem exponent?_sign (e : Int) :
    exponent? ((if 0 ≤ e then '+' else '-') :: Nat.toDigits 10 e.natAbs) = some e := by
  have hdigits : ∀ c ∈ Nat.toDigits 10 e.natAbs, c.isDigit = true := fun c hc =>
    Nat.isDigit_of_mem_toDigits (by decide) (by decide) hc
  have hall : (Nat.toDigits 10 e.natAbs).all isDigit = true := List.all_eq_true.mpr hdigits
  have hvalue : digitsValue (Nat.toDigits 10 e.natAbs) = e.natAbs := by
    rw [digitsValue_eq hdigits, Nat.ofDigitChars_ten_toDigits]
  split
  · rename_i hsign
    simpa [exponent?, hall, hvalue, Nat.toDigits_ne_nil] using hsign
  · rename_i hsign
    have habs : |e| = -e := abs_of_neg (not_le.mp hsign)
    simp [exponent?, hall, hvalue, Nat.toDigits_ne_nil, habs]

end Decimal

/-! ## Writing decimals -/

namespace Value

open Decimal

theorem isDigit_of_mem_digits {n : Nat} {c : Char} (hc : c ∈ Nat.toDigits 10 n) :
    c.isDigit = true :=
  Nat.isDigit_of_mem_toDigits (by decide) (by decide) hc

theorem isDigit_of_mem_zeros {j : Nat} {c : Char} (hc : c ∈ List.replicate j '0') :
    c.isDigit = true := by
  rw [List.eq_of_mem_replicate hc]
  rfl

theorem isDigit_of_mem_zero : ∀ c ∈ ['0'], c.isDigit = true := fun _ hc =>
  isDigit_of_mem_zeros (j := 1) hc

/-- Zeros behind digits raise the number, zeros in front of them leave it alone. -/
theorem ofDigitChars_zeros (n i j : Nat) :
    Nat.ofDigitChars 10 (List.replicate i '0' ++ Nat.toDigits 10 n ++ List.replicate j '0') 0 =
      10 ^ j * n := by
  rw [Nat.ofDigitChars_append, Nat.ofDigitChars_append, Nat.ofDigitChars_replicate_zero,
    Nat.ofDigitChars_replicate_zero, Nat.mul_zero, Nat.ofDigitChars_ten_toDigits]

/-- Zeros behind the digits and a point spell a whole number. -/
theorem spelled?_zeros_behind (n j : Nat) :
    spelled? (Nat.toDigits 10 n ++ List.replicate j '0' ++ ['.', '0']) =
      some ((n : ℚ) * 10 ^ (j : Int)) := by
  have hspelled := spelled?_point (Nat.toDigits 10 n ++ List.replicate j '0')
    ['0'] (fun c hc => (List.mem_append.mp hc).elim isDigit_of_mem_digits
      isDigit_of_mem_zeros) (by simp [Nat.toDigits_ne_nil]) isDigit_of_mem_zero .nothing
  have hvalue := ofDigitChars_zeros n 0 (j + 1)
  rw [List.replicate_succ', List.replicate_zero, List.nil_append, ← List.append_assoc] at hvalue
  rw [hvalue] at hspelled
  refine hspelled.trans (congrArg some ?_)
  push_cast
  rw [pow_succ, List.length_singleton, Nat.cast_one, zero_sub, zpow_neg_one, zpow_natCast]
  ring

/-- A point among the digits counts the places behind it. -/
theorem spelled?_point_among (n : Nat) {j : Nat} (h : j < (Nat.toDigits 10 n).length) :
    spelled? ((Nat.toDigits 10 n).take ((Nat.toDigits 10 n).length - j) ++ ['.'] ++
      (Nat.toDigits 10 n).drop ((Nat.toDigits 10 n).length - j)) =
        some ((n : ℚ) * 10 ^ (-j : Int)) := by
  have hspelled := spelled?_point
    ((Nat.toDigits 10 n).take ((Nat.toDigits 10 n).length - j))
    ((Nat.toDigits 10 n).drop ((Nat.toDigits 10 n).length - j))
    (fun c hc => isDigit_of_mem_digits (List.mem_of_mem_take hc))
    (by simp [Nat.toDigits_ne_nil]; omega)
    (fun c hc => isDigit_of_mem_digits (List.mem_of_mem_drop hc)) .nothing
  rw [List.take_append_drop, Nat.ofDigitChars_ten_toDigits, List.length_drop,
    Nat.sub_sub_self h.le, zero_sub, List.append_nil] at hspelled
  simpa using hspelled

/-- A point and zeros in front of the digits count all places behind the point. -/
theorem spelled?_zeros_before (n : Nat) {j : Nat} (h : (Nat.toDigits 10 n).length ≤ j) :
    spelled? (['0', '.'] ++ List.replicate (j - (Nat.toDigits 10 n).length) '0' ++
      Nat.toDigits 10 n) = some ((n : ℚ) * 10 ^ (-j : Int)) := by
  have hspelled := spelled?_point ['0']
    (List.replicate (j - (Nat.toDigits 10 n).length) '0' ++ Nat.toDigits 10 n)
    isDigit_of_mem_zero (by simp) (fun c hc => (List.mem_append.mp hc).elim isDigit_of_mem_zeros
      isDigit_of_mem_digits) .nothing
  have hvalue := ofDigitChars_zeros n (j - (Nat.toDigits 10 n).length + 1) 0
  rw [List.replicate_zero, List.append_nil, pow_zero, one_mul, List.replicate_succ,
    List.cons_append, ← List.singleton_append] at hvalue
  rw [hvalue, List.length_append, List.length_replicate, Nat.sub_add_cancel h, zero_sub,
    List.append_nil] at hspelled
  simpa using hspelled

theorem spelled?_positional (n : Nat) (k : Int) :
    spelled? (positional (Nat.toDigits 10 n) k) = some ((n : ℚ) * 10 ^ k) := by
  unfold positional
  split
  · rename_i hk
    obtain ⟨j, rfl⟩ := Int.eq_ofNat_of_zero_le hk
    exact spelled?_zeros_behind n j
  · rename_i hk
    obtain ⟨j, hj⟩ := Int.eq_ofNat_of_zero_le (show 0 ≤ -k by omega)
    obtain rfl : k = -j := by omega
    simp only [neg_neg, Int.toNat_natCast]
    split
    · exact spelled?_point_among n ‹_›
    · exact spelled?_zeros_before n (not_lt.mp ‹_›)

/-- One digit, the others behind the point, and an exponent spell the digits with the exponent of
their last place. -/
theorem spelled?_withExponent (n : Nat) (e : Int) :
    spelled? (withExponent (Nat.toDigits 10 n) (e + (Nat.toDigits 10 n).length - 1)) =
      some ((n : ℚ) * 10 ^ e) := by
  have hsome : Nat.toDigits 10 n ≠ [] := Nat.toDigits_ne_nil
  obtain ⟨d, ds, hds⟩ := List.exists_cons_of_ne_nil hsome
  have hdigits : ∀ c ∈ d :: ds, c.isDigit = true := fun c hc => isDigit_of_mem_digits (hds ▸ hc)
  have hvalue : Nat.ofDigitChars 10 (d :: ds) 0 = n := by
    rw [← hds, Nat.ofDigitChars_ten_toDigits]
  have hexponent := Follows.exponent (exponent?_sign (e + (d :: ds).length - 1))
  have hlast : e + ((d :: ds).length : Int) - 1 - ds.length = e := by
    rw [List.length_cons]
    omega
  rw [withExponent, hds]
  simp only [List.take_one, List.head?_cons, Option.toList_some, List.drop_one, List.tail_cons]
  cases ds with
  | nil =>
      have hspelled := spelled?_whole hdigits (by simp) hexponent
      rw [hvalue] at hspelled
      simpa using hspelled
  | cons c rest =>
      have hspelled := spelled?_point [d] (c :: rest)
        (fun x hx => hdigits x (by simp_all)) (by simp)
        (fun x hx => hdigits x (List.mem_cons_of_mem _ hx)) hexponent
      rw [List.singleton_append, List.singleton_append, hvalue, hlast] at hspelled
      simpa using hspelled

/-- A fraction in writing, its sign left out. -/
def magnitudeText (b : Binary64) : List Char :=
  if b.mantissa == 0 then ['0', '.', '0']
  else
    let s := shortest b
    let ds := Nat.toDigits 10 s.digits
    let e : Int := s.exponent + ds.length - 1
    if -5 ≤ e && e ≤ 15 then positional ds s.exponent else withExponent ds e

theorem floatText_eq {x : Float} {b : Binary64} (h : Binary64.ofFloat? x = some b) :
    (floatText x).toList = if b.negative then '-' :: magnitudeText b else magnitudeText b := by
  rw [floatText, h]
  exact String.toList_ofList

/-- What is written spells the decimal that rounds to the fraction. -/
theorem spelled?_magnitudeText (b : Binary64) : spelled? (magnitudeText b) = some b.decimal := by
  unfold magnitudeText Binary64.decimal
  split
  · rename_i hzero
    rw [if_pos (beq_iff_eq.mp hzero)]
    have hspelled := spelled?_point ['0'] ['0'] isDigit_of_mem_zero (by simp)
      isDigit_of_mem_zero .nothing
    refine hspelled.trans (congrArg some ?_)
    simp [Nat.ofDigitChars]
  · rename_i hsome
    rw [if_neg (fun hzero => hsome (beq_iff_eq.mpr hzero))]
    simp only
    split
    · exact spelled?_positional _ _
    · exact spelled?_withExponent _ _

/-- No digits begin with a sign. -/
theorem ne_sign_cons {cs ds : List Char} {v : ℚ} (h : spelled? cs = some v) :
    cs ≠ '-' :: ds := by
  rintro rfl
  cases h

/-- Finite floats of the same text are the same. -/
theorem floatText_inj {x y : Float} {a b : Binary64} (hx : Binary64.ofFloat? x = some a)
    (hy : Binary64.ofFloat? y = some b) (h : floatText x = floatText y) : x = y := by
  have htexts := congrArg String.toList h
  rw [floatText_eq hx, floatText_eq hy] at htexts
  have ha := spelled?_magnitudeText a
  have hb := spelled?_magnitudeText b
  have hsame : a.negative = b.negative ∧ magnitudeText a = magnitudeText b := by
    cases hnegative : a.negative with
    | true =>
        cases hnegative' : b.negative with
        | true => simpa [hnegative, hnegative'] using htexts
        | false =>
            rw [hnegative, hnegative', if_pos rfl, if_neg (by decide)] at htexts
            exact absurd htexts.symm (ne_sign_cons hb)
    | false =>
        cases hnegative' : b.negative with
        | true =>
            rw [hnegative, hnegative', if_pos rfl, if_neg (by decide)] at htexts
            exact absurd htexts (ne_sign_cons ha)
        | false => simpa [hnegative, hnegative'] using htexts
  have hdecimal : a.decimal = b.decimal := by
    rw [hsame.2, hb] at ha
    exact (Option.some.inj ha).symm
  obtain ⟨hmantissa, hexponent⟩ := (Binary64.canonical_of_ofFloat? hx).eq_of_decimal_eq
    (Binary64.canonical_of_ofFloat? hy) hdecimal
  have hequal : a = b := by
    cases a
    cases b
    simp_all
  exact Binary64.ofFloat?_inj hx (hequal ▸ hy)

/-! ## The characters of numbers -/

/-- The characters that numbers are written with. -/
def IsNumeral (c : Char) : Prop := c.isDigit = true ∨ c = '.' ∨ c = 'e' ∨ c = '+' ∨ c = '-'

instance (c : Char) : Decidable (IsNumeral c) :=
  inferInstanceAs (Decidable (_ ∨ _))

theorem isNumeral_of_mem_digits {n : Nat} {c : Char} (hc : c ∈ Nat.toDigits 10 n) :
    IsNumeral c :=
  .inl (isDigit_of_mem_digits hc)

theorem isNumeral_of_mem_zeros {j : Nat} {c : Char} (hc : c ∈ List.replicate j '0') :
    IsNumeral c :=
  .inl (isDigit_of_mem_zeros hc)

theorem isNumeral_of_mem_positional {n : Nat} {k : Int} {c : Char}
    (hc : c ∈ positional (Nat.toDigits 10 n) k) : IsNumeral c := by
  unfold positional at hc
  split at hc
  · simp only [List.mem_append, List.mem_cons, List.not_mem_nil, or_false] at hc
    obtain (hc | hc) | rfl | rfl := hc
    · exact isNumeral_of_mem_digits hc
    · exact isNumeral_of_mem_zeros hc
    · exact .inr (.inl rfl)
    · exact .inl rfl
  · simp only at hc
    split at hc
    · simp only [List.mem_append, List.mem_cons, List.not_mem_nil, or_false] at hc
      obtain (hc | rfl) | hc := hc
      · exact isNumeral_of_mem_digits (List.mem_of_mem_take hc)
      · exact .inr (.inl rfl)
      · exact isNumeral_of_mem_digits (List.mem_of_mem_drop hc)
    · simp only [List.mem_append, List.mem_cons, List.not_mem_nil, or_false] at hc
      obtain ((rfl | rfl) | hc) | hc := hc
      · exact .inl rfl
      · exact .inr (.inl rfl)
      · exact isNumeral_of_mem_zeros hc
      · exact isNumeral_of_mem_digits hc

theorem point_mem_positional (ds : List Char) (k : Int) : '.' ∈ positional ds k := by
  unfold positional
  split
  · simp
  · simp only
    split
    · simp
    · simp

theorem isNumeral_of_mem_withExponent {n : Nat} {e : Int} {c : Char}
    (hc : c ∈ withExponent (Nat.toDigits 10 n) e) : IsNumeral c := by
  unfold withExponent at hc
  simp only [List.mem_append, List.mem_cons, List.not_mem_nil, or_false] at hc
  obtain ((hc | hc) | rfl | rfl) | hc := hc
  · exact isNumeral_of_mem_digits (List.mem_of_mem_take hc)
  · split at hc
    · cases hc
    · obtain rfl | hc := List.mem_cons.mp hc
      · exact .inr (.inl rfl)
      · exact isNumeral_of_mem_digits (List.mem_of_mem_drop hc)
  · exact .inr (.inr (.inl rfl))
  · split
    · exact .inr (.inr (.inr (.inl rfl)))
    · exact .inr (.inr (.inr (.inr rfl)))
  · exact isNumeral_of_mem_digits hc

theorem exponent_mem_withExponent (ds : List Char) (e : Int) : 'e' ∈ withExponent ds e := by
  simp [withExponent]

theorem isNumeral_of_mem_magnitudeText {b : Binary64} {c : Char} (hc : c ∈ magnitudeText b) :
    IsNumeral c := by
  unfold magnitudeText at hc
  split at hc
  · simp only [List.mem_cons, List.not_mem_nil, or_false] at hc
    obtain rfl | rfl | rfl := hc
    · exact .inl rfl
    · exact .inr (.inl rfl)
    · exact .inl rfl
  · simp only at hc
    split at hc
    · exact isNumeral_of_mem_positional hc
    · exact isNumeral_of_mem_withExponent hc

theorem mark_mem_magnitudeText (b : Binary64) :
    '.' ∈ magnitudeText b ∨ 'e' ∈ magnitudeText b := by
  unfold magnitudeText
  split
  · exact .inl (by simp)
  · simp only
    split
    · exact .inl (point_mem_positional _ _)
    · exact .inr (exponent_mem_withExponent _ _)

variable {x : Float} {b : Binary64}

theorem isNumeral_of_mem_floatText (h : Binary64.ofFloat? x = some b) {c : Char}
    (hc : c ∈ (floatText x).toList) : IsNumeral c := by
  rw [floatText_eq h] at hc
  split at hc
  · obtain rfl | hc := List.mem_cons.mp hc
    · exact .inr (.inr (.inr (.inr rfl)))
    · exact isNumeral_of_mem_magnitudeText hc
  · exact isNumeral_of_mem_magnitudeText hc

/-- A float has a point or an exponent. -/
theorem mark_mem_floatText (h : Binary64.ofFloat? x = some b) :
    '.' ∈ (floatText x).toList ∨ 'e' ∈ (floatText x).toList := by
  rw [floatText_eq h]
  split
  · exact (mark_mem_magnitudeText b).imp (List.mem_cons_of_mem _) (List.mem_cons_of_mem _)
  · exact mark_mem_magnitudeText b

theorem floatText_ne_nil (h : Binary64.ofFloat? x = some b) : (floatText x).toList ≠ [] := by
  rcases mark_mem_floatText h with hmark | hmark
  · exact List.ne_nil_of_mem hmark
  · exact List.ne_nil_of_mem hmark

/-! ## Whole numbers -/

theorem toList_toString_int (n : Int) : (toString n).toList =
    if n < 0 then '-' :: Nat.toDigits 10 n.natAbs else Nat.toDigits 10 n.natAbs := by
  cases n with
  | ofNat m =>
      rw [if_neg (by simp)]
      exact Text.toList_toString m
  | negSucc m =>
      rw [if_pos (Int.negSucc_lt_zero m)]
      change ("-" ++ toString (m + 1)).toList = _
      rw [String.toList_append, Text.toList_toString]
      rfl

theorem toString_int_inj {m n : Int} (h : toString m = toString n) : m = n := by
  have htexts := congrArg String.toList h
  rw [toList_toString_int, toList_toString_int] at htexts
  have hsign : ∀ {i j : Nat}, '-' :: Nat.toDigits 10 i ≠ Nat.toDigits 10 j := fun {i j} hsame =>
    absurd (isDigit_of_mem_digits (hsame ▸ List.mem_cons_self : '-' ∈ Nat.toDigits 10 j))
      (by decide)
  split at htexts
  · split at htexts
    · have hnumber := Text.toDigits_inj (List.cons.inj htexts).2
      omega
    · exact absurd htexts hsign
  · split at htexts
    · exact absurd htexts.symm hsign
    · have hnumber := Text.toDigits_inj htexts
      omega

theorem toString_int_ne_nil (n : Int) : (toString n).toList ≠ [] := by
  rw [toList_toString_int]
  split
  · simp
  · exact Nat.toDigits_ne_nil

/-- A whole number has a sign at most and digits. -/
theorem isDigit_of_mem_toString_int {n : Int} {c : Char} (hc : c ∈ (toString n).toList) :
    c = '-' ∨ c.isDigit = true := by
  rw [toList_toString_int] at hc
  split at hc
  · exact (List.mem_cons.mp hc).imp_right isDigit_of_mem_digits
  · exact .inr (isDigit_of_mem_digits hc)

theorem isNumeral_of_mem_toString_int {n : Int} {c : Char} (hc : c ∈ (toString n).toList) :
    IsNumeral c := by
  rcases isDigit_of_mem_toString_int hc with rfl | hdigit
  · exact .inr (.inr (.inr (.inr rfl)))
  · exact .inl hdigit

/-- Whole numbers and floats are never written alike. -/
theorem toString_ne_floatText (h : Binary64.ofFloat? x = some b) (n : Int) :
    toString n ≠ floatText x := by
  intro hsame
  have hdigits : ∀ c ∈ (floatText x).toList, c = '-' ∨ c.isDigit = true := fun c hc =>
    isDigit_of_mem_toString_int (hsame ▸ hc)
  rcases mark_mem_floatText h with hmark | hmark
  · exact absurd (hdigits _ hmark) (by decide)
  · exact absurd (hdigits _ hmark) (by decide)

end Value

end RecordGraph
