/-
# Logic that is written for a group

A group without logic of its own is combined by its conjunction. Its logic is then written as a
text over the numbers of its entries, and this text is scanned and compiled like one that a
caller has written. Here it is read back: what comes out is the conjunction of the entries,
however many there are and however many digits their numbers have.

The text may be written for another number of entries than it is read for. Numbers past the last
entry are then passed over, but only as long as they fit in a machine word; the first one that does
not fit is refused.
-/
import Mathlib.Data.List.Intervals
import RecordGraph.Condition.Group
import RecordGraph.Proofs.AcceptedLogic

namespace RecordGraph

/-! ## Numerals -/

namespace Text

theorem toList_toString (n : Nat) : (toString n).toList = Nat.toDigits 10 n := by
  rw [Nat.toString_eq_ofList_toDigits, String.toList_ofList]

theorem toDigits_inj {m n : Nat} (h : Nat.toDigits 10 m = Nat.toDigits 10 n) : m = n := by
  rw [← Nat.ofDigitChars_ten_toDigits (n := m), h, Nat.ofDigitChars_ten_toDigits]

theorem toString_inj {m n : Nat} (h : toString m = toString n) : m = n := by
  apply toDigits_inj
  rw [← toList_toString, h, toList_toString]

theorem isDigit_of_mem_toString {n : Nat} {c : Char} (h : c ∈ (toString n).toList) :
    c.isDigit = true := by
  rw [toList_toString] at h
  exact Nat.isDigit_of_mem_toDigits (by decide) (by decide) h

theorem writes_toString (n : Nat) : Writes n (toString n) := by
  refine ⟨(toString n).toList, ?_, fun c hc => isDigit_of_mem_toString hc, ?_, .inl rfl⟩
  · rw [toList_toString]
    exact Nat.toDigits_ne_nil
  · rw [toList_toString, Nat.ofDigitChars_ten_toDigits]

/-- A written number is read as itself, if it fits. -/
theorem word?_toString (n : Nat) : word? (toString n) = if n ≤ wordMax then some n else none := by
  rw [word?, numeral?_eq_some_iff.mpr (writes_toString n), Option.bind_some]

end Text

theorem Conjunction.parse?_text (c : Conjunction) : parse? c.text = some c := by
  cases c <;> decide +kernel

namespace Logic

/-! ## Reading -/

theorem isPlain_of_isDigit {c : Char} (h : c.isDigit = true) : IsPlain c := by
  rw [Char.isDigit, Bool.and_eq_true, decide_eq_true_eq, decide_eq_true_eq] at h
  have hlow : 48 ≤ c.toNat := h.1
  have hhigh : c.toNat ≤ 57 := h.2
  refine ⟨?_, ?_, ?_, ?_⟩
  · rintro rfl
    exact absurd hlow (by decide)
  · rintro rfl
    exact absurd hlow (by decide)
  · rintro rfl
    exact absurd hlow (by decide)
  · simp [Text.isBlank]
    omega

theorem isPlain_toString (n : Nat) :
    (toString n).toList ≠ [] ∧ ∀ d ∈ (toString n).toList, IsPlain d := by
  refine ⟨?_, fun d hd => isPlain_of_isDigit (Text.isDigit_of_mem_toString hd)⟩
  rw [Text.toList_toString]
  exact Nat.toDigits_ne_nil

/-- A written number spells no conjunction. -/
theorem parse?_toString (n : Nat) : Conjunction.parse? (toString n) = none :=
  parse?_of_writes (isPlain_toString n).2 (Text.writes_toString n)

theorem isPlain_text (c : Conjunction) : c.text.toList ≠ [] ∧ ∀ d ∈ c.text.toList, IsPlain d := by
  cases c <;> simp [Conjunction.text, IsPlain] <;> decide

/-- The text of a conjunction over the first entries is the conjunction and their numbers. -/
theorem parse_defaultText (c : Conjunction) (count : Nat) :
    Token.parse (defaultText c count) =
      .ok (.word c.text :: (List.range count).map fun i => .word (toString (i + 1))) := by
  have hwritten : SpelledAll
      [.list (.word c.text :: ((List.range count).map fun i => toString (i + 1)).map .word)]
      (defaultText c count).toList := by
    have hnumbers := spelledAll_words ((List.range count).map fun i => toString (i + 1))
    simpa [defaultText, String.toList_intercalate, Function.comp_def] using
      SpelledAll.single (.headed c.text hnumbers)
  have hplain : PlainWords
      [.list (.word c.text :: ((List.range count).map fun i => toString (i + 1)).map .word)] := by
    refine (@PlainWords.words (c.text :: _) fun w hw => ?_).single_list
    rcases List.mem_cons.mp hw with rfl | hw
    · exact isPlain_text c
    · obtain ⟨i, -, rfl⟩ := List.mem_map.mp hw
      exact isPlain_toString _
  have hread := Token.parse_of_spelled hwritten hplain
  rw [String.ofList_toList, stripOuter_single_list, stripOuter_word] at hread
  rw [hread, List.map_map]
  rfl

/-! ## Compiling -/

/-- What is read after other tokens is read where these have led. -/
theorem compileTokens_append (count : Nat) (ts us : List Token) (s : Compiled) :
    compileTokens count (ts ++ us) s = (compileTokens count ts s).bind (compileTokens count us) := by
  induction ts generalizing s with
  | nil => rfl
  | cons t rest ih =>
      rw [List.cons_append, compileTokens, compileTokens]
      cases compileToken count t s with
      | error e => rfl
      | ok next => exact ih next

/-- A written number is compiled if it fits, and else it is refused as it stands. -/
theorem Compiled.word_toString (count n : Nat) (s : Compiled) :
    s.word count (toString n) =
      if n ≤ Text.wordMax then .ok (if n = 0 || count < n then s else s.push (.condition (n - 1)))
      else .error (.invalidQuery (.unexpectedToken (toString n))) := by
  rw [word, parse?_toString, Text.word?_toString]
  by_cases hfits : n ≤ Text.wordMax
  · rw [if_pos hfits, if_pos hfits]
  · rw [if_neg hfits, if_neg hfits]

/-- Numbers that fit add the conditions that they number to what the conjunction governs. -/
theorem compileTokens_numbers {count : Nat} {is : List Nat} (h : ∀ i ∈ is, i < Text.wordMax)
    (base : List Expr) (c : Conjunction) (children : List Expr) :
    compileTokens count (is.map fun i => .word (toString (i + 1))) ⟨base, some (c, children)⟩ =
      .ok ⟨base, some (c, children ++ (is.filter (· < count)).map .condition)⟩ := by
  induction is generalizing children with
  | nil => simp [compileTokens]
  | cons i rest ih =>
      have hrest : ∀ j ∈ rest, j < Text.wordMax := fun j hj => h j (by simp [hj])
      have hfits : i + 1 ≤ Text.wordMax := Nat.succ_le_of_lt (h i (by simp))
      rw [List.map_cons, compileTokens, compileToken, Compiled.word_toString, if_pos hfits]
      by_cases hi : i < count
      · have hpast : (i + 1 = 0 || count < i + 1) = false := by
          simpa using Nat.succ_le_of_lt hi
        simp only [hpast, Compiled.push, Bool.false_eq_true, if_false]
        rw [ih hrest]
        simp [hi]
      · have hpast : (i + 1 = 0 || count < i + 1) = true := by
          simpa using Nat.lt_succ_of_le (Nat.le_of_not_lt hi)
        simp only [hpast, if_true]
        rw [ih hrest]
        simp [hi]

/-- The first number that does not fit is refused, whatever comes after it. -/
theorem compileTokens_large {count n : Nat} {is : List Nat} (h : ∀ i ∈ is, i < Text.wordMax)
    (hn : Text.wordMax ≤ n) (more : List Nat) (base : List Expr) (c : Conjunction)
    (children : List Expr) :
    compileTokens count ((is ++ n :: more).map fun i => .word (toString (i + 1)))
        ⟨base, some (c, children)⟩ =
      .error (.invalidQuery (.unexpectedToken (toString (n + 1)))) := by
  have hlarge : ¬ n + 1 ≤ Text.wordMax := Nat.not_le_of_lt (Nat.lt_succ_of_le hn)
  rw [List.map_append, compileTokens_append, compileTokens_numbers h, Except.bind, List.map_cons,
    compileTokens, compileToken, Compiled.word_toString, if_neg hlarge]

/-- Written logic is compiled from its conjunction and its numbers. -/
theorem compile_defaultText_eq (c : Conjunction) (written count : Nat) :
    compile (defaultText c written) count =
      (compileTokens count ((List.range written).map fun i => .word (toString (i + 1)))
        ⟨[], some (c, [])⟩).map Compiled.flush := by
  rw [compile_eq_of_parse (parse_defaultText c written) (by simp), compileTokens, compileToken,
    Compiled.word, Conjunction.parse?_text]
  rfl

/-- Written logic compiles to the conjunction of the entries that there are, if their numbers
fit. -/
theorem compile_defaultText (c : Conjunction) {written : Nat} (h : written ≤ Text.wordMax)
    (count : Nat) : compile (defaultText c written) count =
      .ok (if min written count = 0 then []
        else [.group c ((List.range (min written count)).map .condition)]) := by
  have hfits : ∀ i ∈ List.range written, i < Text.wordMax := fun i hi =>
    Nat.lt_of_lt_of_le (List.mem_range.mp hi) h
  have hkept : (List.range written).filter (· < count) = List.range (min written count) := by
    rw [← List.Ico.zero_bot, List.Ico.filter_lt, List.Ico.zero_bot]
  rw [compile_defaultText_eq, compileTokens_numbers hfits, hkept, Except.map]
  by_cases hnone : min written count = 0
  · simp [Compiled.flush, hnone]
  · simp [Compiled.flush, hnone]

/-- Of more numbers than a machine word can hold, the first that does not fit is refused. -/
theorem compile_defaultText_of_large (c : Conjunction) {written : Nat}
    (h : Text.wordMax < written) (count : Nat) : compile (defaultText c written) count =
      .error (.invalidQuery (.unexpectedToken (toString (Text.wordMax + 1)))) := by
  obtain ⟨more, rfl⟩ := Nat.exists_eq_add_of_lt h
  have hsplit : List.range (Text.wordMax + more + 1) = List.range Text.wordMax ++
      Text.wordMax :: (List.range more).map fun i => Text.wordMax + (i + 1) := by
    rw [Nat.add_assoc, List.range_add, List.range_succ_eq_map]
    simp
  rw [compile_defaultText_eq, hsplit,
    compileTokens_large (fun i hi => List.mem_range.mp hi) (Nat.le_refl _)]
  rfl

/-- Logic that compiles was written for numbers that fit. -/
theorem le_wordMax_of_compile {c : Conjunction} {written count : Nat} {es : List Expr}
    (h : compile (defaultText c written) count = .ok es) : written ≤ Text.wordMax := by
  by_contra hlarge
  rw [compile_defaultText_of_large c (Nat.lt_of_not_le hlarge)] at h
  cases h

/-- Logic that is written for a group is read back: it compiles to one conjunction of the first
conditions in their order, as many as are both written and there, and to nothing if there are
none. Every number of entries that a machine word can hold will do. With more entries than that,
the first number that does not fit is refused. -/
theorem compile_reads_defaultText (c : Conjunction) (written count : Nat) :
    compile (defaultText c written) count =
      if written ≤ Text.wordMax then
        .ok (if min written count = 0 then []
          else [.group c ((List.range (min written count)).map .condition)])
      else .error (.invalidQuery (.unexpectedToken (toString (Text.wordMax + 1)))) := by
  by_cases hfits : written ≤ Text.wordMax
  · rw [if_pos hfits, compile_defaultText c hfits]
  · rw [if_neg hfits, compile_defaultText_of_large c (Nat.lt_of_not_le hfits)]

/-- Twelve numbers are written and eleven conditions are there, so the last one, which has two
digits like the two before it, is passed over. -/
example : (compile (defaultText .or 12) 11).toOption.map indicesOf = some (List.range 11) := by
  decide +kernel

end Logic

end RecordGraph
