/-
# Finding a text in another one

Comparisons of texts by their parts compare lower case with lower case, and a text is put into
lower case as a whole. All characters but one are mapped in the same way wherever they stand, to
one small letter or to several; a capital sigma becomes one small letter, but which one depends
on whether it ends a word, that is, on the letters around it.

So a part of a text is found in it where its capital sigmas are spelled in the text as they are in
the part alone. A beginning or an end that is spelled differently is not found there.
-/
import RecordGraph.Predicate.Matching

namespace RecordGraph

namespace Text

/-! ## Lower case in the midst of a text -/

/-- Whether a capital sigma ends a word, given what stands before it in reverse and what stands
after it. -/
def endsWord (before after : List Char) : Bool := meetsLetter before && !meetsLetter after

/-- The lower case of one character of a text. -/
def lowerAt (before after : List Char) (c : Char) : List Char :=
  if c == 'Σ' then [if endsWord before after then 'ς' else 'σ'] else lowerChar c

/-- The lower case of characters, given those before them in reverse and those after them. -/
def lowerBetween (before after : List Char) : List Char → List Char
  | [] => []
  | c :: rest => lowerAt before (rest ++ after) c ++ lowerBetween (c :: before) after rest

theorem lowerAfter_append (before xs ys : List Char) : lowerAfter before (xs ++ ys) =
    lowerBetween before ys xs ++ lowerAfter (xs.reverse ++ before) ys := by
  induction xs generalizing before with
  | nil => rfl
  | cons c rest ih =>
      rw [List.cons_append, lowerAfter, ih, lowerBetween, List.append_assoc, List.reverse_cons,
        List.append_assoc]
      rfl

/-- With nothing behind them the characters end the text. -/
theorem lowerBetween_nil (before xs : List Char) :
    lowerBetween before [] xs = lowerAfter before xs := by
  have hsplit := lowerAfter_append before xs []
  rwa [List.append_nil, lowerAfter, List.append_nil, eq_comm] at hsplit

theorem length_lowerAt (before after before' after' : List Char) (c : Char) :
    (lowerAt before after c).length = (lowerAt before' after' c).length := by
  unfold lowerAt
  split
  · rfl
  · rfl

/-- In how many characters a part of a text results does not depend on what is around it. -/
theorem length_lowerBetween (before after before' after' xs : List Char) :
    (lowerBetween before after xs).length = (lowerBetween before' after' xs).length := by
  induction xs generalizing before before' with
  | nil => rfl
  | cons c rest ih =>
      rw [lowerBetween, lowerBetween, List.length_append, List.length_append, ih _ (c :: before'),
        length_lowerAt before _ before']

theorem lowerAt_eq_iff (before after before' after' : List Char) (c : Char) :
    lowerAt before after c = lowerAt before' after' c ↔
      (c = 'Σ' → endsWord before after = endsWord before' after') := by
  unfold lowerAt
  split
  · rename_i hc
    cases endsWord before after <;> cases endsWord before' after' <;> simp [beq_iff_eq.mp hc]
  · rename_i hc
    simp [mt beq_iff_eq.mpr hc]

/-! ## Parts that are spelled as they are alone -/

/-- The places of the capital sigmas of a text: the first character may be one, and the others
stand behind it. -/
theorem forall_sigma_cons {p : List Char → List Char → Prop} {c : Char} {rest : List Char} :
    (∀ first last, c :: rest = first ++ 'Σ' :: last → p first last) ↔
      (c = 'Σ' → p [] rest) ∧
        ∀ first last, rest = first ++ 'Σ' :: last → p (c :: first) last := by
  constructor
  · intro h
    constructor
    · rintro rfl
      exact h [] rest rfl
    · rintro first last rfl
      exact h (c :: first) last rfl
  · rintro ⟨hfirst, hothers⟩ first last hsplit
    cases first with
    | nil =>
        obtain ⟨rfl, rfl⟩ := List.cons.inj hsplit
        exact hfirst rfl
    | cons d first =>
        obtain ⟨rfl, hrest⟩ := List.cons.inj hsplit
        exact hothers first last hrest

/-- Two surroundings give a part the same lower case exactly when they agree on which of its
capital sigmas end a word. -/
theorem lowerBetween_eq_iff (before after before' after' xs : List Char) :
    lowerBetween before after xs = lowerBetween before' after' xs ↔
      ∀ first last, xs = first ++ 'Σ' :: last →
        endsWord (first.reverse ++ before) (last ++ after) =
          endsWord (first.reverse ++ before') (last ++ after') := by
  induction xs generalizing before before' with
  | nil => simp [lowerBetween]
  | cons c rest ih =>
      rw [forall_sigma_cons, lowerBetween, lowerBetween]
      simp only [List.reverse_nil, List.nil_append, List.reverse_cons, List.append_assoc,
        List.singleton_append]
      rw [← ih, ← lowerAt_eq_iff]
      constructor
      · exact fun h => List.append_inj h (length_lowerAt _ _ _ _ c)
      · rintro ⟨hfirst, hothers⟩
        rw [hfirst, hothers]

/-- The capital sigmas of a part of a text end a word there if they do so in the part alone, and
only then. -/
def SpelledAlike (before part after : List Char) : Prop :=
  ∀ first last, part = first ++ 'Σ' :: last →
    endsWord (first.reverse ++ before.reverse) (last ++ after) = endsWord first.reverse last

/-- Such a part has in the text the lower case that it has alone. -/
theorem spelledAlike_iff {before part after : List Char} : SpelledAlike before part after ↔
    lowerBetween before.reverse after part = (lower (String.ofList part)).toList := by
  rw [lower, String.toList_ofList, String.toList_ofList, ← lowerBetween_nil, lowerBetween_eq_iff]
  simp only [List.append_nil]
  rfl

/-- A part without capital sigmas is spelled as it is alone, wherever it stands. -/
theorem spelledAlike_of_not_mem {before part after : List Char} (h : 'Σ' ∉ part) :
    SpelledAlike before part after := by
  rintro first last rfl
  simp at h

theorem meetsLetter_append_of_not {xs ys : List Char} (h : meetsLetter ys = false) :
    meetsLetter (xs ++ ys) = meetsLetter xs := by
  unfold meetsLetter
  rw [List.dropWhile_append]
  cases hxs : xs.dropWhile isCaseIgnorable with
  | nil => exact h
  | cons c rest => rfl

/-- Whole words are spelled as they are alone. -/
theorem spelledAlike_of_apart {before part after : List Char}
    (hbefore : meetsLetter before.reverse = false) (hafter : meetsLetter after = false) :
    SpelledAlike before part after := by
  intro first last _
  rw [endsWord, endsWord, meetsLetter_append_of_not hbefore, meetsLetter_append_of_not hafter]

/-- A text that is cut in three in lower case. -/
theorem toList_lower_of_cut {t : String} {before part after : List Char}
    (hcut : t.toList = before ++ part ++ after) :
    ∃ first last, (lower t).toList = first ++ lowerBetween before.reverse after part ++ last ∧
      (before = [] → first = []) ∧ (after = [] → last = []) := by
  refine ⟨lowerBetween [] (part ++ after) before,
    lowerAfter (part.reverse ++ before.reverse) after, ?_, ?_, ?_⟩
  · rw [lower, String.toList_ofList, hcut, List.append_assoc, lowerAfter_append,
      lowerAfter_append, List.append_nil, List.append_assoc]
  · rintro rfl
    rfl
  · rintro rfl
    rfl

end Text

theorem isPart_iff {part text : List Char} : isPart part text = true ↔ part <:+: text := by
  induction text with
  | nil => simp [isPart]
  | cons c rest ih =>
      rw [isPart, Bool.or_eq_true, List.isPrefixOf_iff_prefix, ih, List.infix_cons_iff]

namespace Operator

variable (values : List Value) (operand : Value)

theorem holdsOf_startsWith : startsWith.holdsOf values operand =
    someText values operand fun t p => p.toList.isPrefixOf t.toList := rfl

theorem holdsOf_endsWith : endsWith.holdsOf values operand =
    someText values operand fun t p => p.toList.isSuffixOf t.toList := rfl

theorem holdsOf_contains : contains.holdsOf values operand =
    someText values operand fun t p => isPart p.toList t.toList := rfl

end Operator

namespace Predicate

variable {r : Record} {field : String} {t s : String}

/-- A comparison with a text holds if one of the stored texts is accepted. -/
theorem holds_someText {op : Operator} {accepts : String → String → Bool}
    (hop : ∀ values operand, op.holdsOf values operand = Operator.someText values operand accepts)
    (hstored : .text t ∈ r.valuesAt field) (h : accepts (Text.lower t) (Text.lower s) = true) :
    (Predicate.compare field op (.text s)).holds r = true := by
  rw [Predicate.holds, hop, Bool.and_eq_true, Operator.someText, List.any_eq_true]
  refine ⟨?_, .text t, hstored, h⟩
  rw [Bool.not_eq_true', List.isEmpty_eq_false_iff]
  exact List.ne_nil_of_mem hstored

/-- A comparison with a text asks the only stored one. -/
theorem holds_onlyText {op : Operator} {accepts : String → String → Bool}
    (hop : ∀ values operand, op.holdsOf values operand = Operator.someText values operand accepts)
    (honly : r.valuesAt field = [.text t]) : (Predicate.compare field op (.text s)).holds r =
      accepts (Text.lower t) (Text.lower s) := by
  rw [Predicate.holds, hop, honly]
  simp [Operator.someText, Value.plainText]

end Predicate

/-! ## What is found -/

section Parts

variable {r : Record} {field t s : String} {before after : List Char}

/-- A stored text begins with, ends with, or contains a part of it that is spelled in it as it is
alone. -/
theorem found_of_spelledAlike (hstored : .text t ∈ r.valuesAt field)
    (hcut : t.toList = before ++ s.toList ++ after)
    (halike : Text.SpelledAlike before s.toList after) :
    (before = [] → (Predicate.compare field .startsWith (.text s)).holds r = true) ∧
      (after = [] → (Predicate.compare field .endsWith (.text s)).holds r = true) ∧
      (Predicate.compare field .contains (.text s)).holds r = true := by
  obtain ⟨first, last, hlower, hfirst, hlast⟩ := Text.toList_lower_of_cut hcut
  rw [Text.spelledAlike_iff, String.ofList_toList] at halike
  rw [halike] at hlower
  refine ⟨fun hbefore => ?_, fun hafter => ?_, ?_⟩
  · apply Predicate.holds_someText Operator.holdsOf_startsWith hstored
    rw [List.isPrefixOf_iff_prefix, hlower, hfirst hbefore, List.nil_append]
    exact List.prefix_append _ last
  · apply Predicate.holds_someText Operator.holdsOf_endsWith hstored
    rw [List.isSuffixOf_iff_suffix, hlower, hlast hafter, List.append_nil]
    exact List.suffix_append first _
  · apply Predicate.holds_someText Operator.holdsOf_contains hstored
    rw [isPart_iff, hlower]
    exact ⟨first, last, rfl⟩

/-- So every part without capital sigmas is found. -/
theorem found_of_no_sigma (hstored : .text t ∈ r.valuesAt field)
    (hcut : t.toList = before ++ s.toList ++ after) (hsigma : 'Σ' ∉ s.toList) :
    (before = [] → (Predicate.compare field .startsWith (.text s)).holds r = true) ∧
      (after = [] → (Predicate.compare field .endsWith (.text s)).holds r = true) ∧
      (Predicate.compare field .contains (.text s)).holds r = true :=
  found_of_spelledAlike hstored hcut (Text.spelledAlike_of_not_mem hsigma)

/-- A beginning or an end that is spelled otherwise is not found. -/
theorem missed_of_not_spelledAlike (honly : r.valuesAt field = [.text t])
    (hcut : t.toList = before ++ s.toList ++ after)
    (hdiffers : ¬ Text.SpelledAlike before s.toList after) :
    (before = [] → (Predicate.compare field .startsWith (.text s)).holds r = false) ∧
      (after = [] → (Predicate.compare field .endsWith (.text s)).holds r = false) := by
  obtain ⟨first, last, hlower, hfirst, hlast⟩ := Text.toList_lower_of_cut hcut
  rw [Text.spelledAlike_iff, String.ofList_toList] at hdiffers
  -- both spellings are as long, so that one can only be found where the other stands
  have hlength : (Text.lowerBetween before.reverse after s.toList).length =
      (Text.lower s).toList.length := by
    rw [Text.lower, String.toList_ofList, ← Text.lowerBetween_nil]
    exact Text.length_lowerBetween _ _ _ _ _
  refine ⟨fun hbefore => ?_, fun hafter => ?_⟩
  · rw [Predicate.holds_onlyText Operator.holdsOf_startsWith honly, Bool.eq_false_iff, Ne,
      List.isPrefixOf_iff_prefix, hlower, hfirst hbefore, List.nil_append]
    rintro ⟨rest, hrest⟩
    exact hdiffers (List.append_inj_left hrest hlength.symm).symm
  · rw [Predicate.holds_onlyText Operator.holdsOf_endsWith honly, Bool.eq_false_iff, Ne,
      List.isSuffixOf_iff_suffix, hlower, hlast hafter, List.append_nil]
    rintro ⟨rest, hrest⟩
    exact hdiffers (List.append_inj_right' hrest hlength.symm).symm

/-- A text that is stored is found by a part of it, and by one that it begins or ends with as such,
wherever the part is spelled in it as it is alone. A beginning or an end that is not is missed. -/
theorem parts_found (hstored : .text t ∈ r.valuesAt field)
    (hcut : t.toList = before ++ s.toList ++ after) :
    (Text.SpelledAlike before s.toList after →
      (before = [] → (Predicate.compare field .startsWith (.text s)).holds r = true) ∧
      (after = [] → (Predicate.compare field .endsWith (.text s)).holds r = true) ∧
      (Predicate.compare field .contains (.text s)).holds r = true) ∧
    (¬ Text.SpelledAlike before s.toList after → r.valuesAt field = [.text t] →
      (before = [] → (Predicate.compare field .startsWith (.text s)).holds r = false) ∧
      (after = [] → (Predicate.compare field .endsWith (.text s)).holds r = false)) :=
  ⟨found_of_spelledAlike hstored hcut,
    fun hdiffers honly => missed_of_not_spelledAlike honly hcut hdiffers⟩

end Parts

namespace Library

/-- An article with a title. -/
def entitled (title : String) : Record := (Record.new "node" "article").set "title" (.text title)

/-- Whether an article with a title is found by a part of the title. -/
def foundBy (title : String) (op : Operator) (part : String) : Bool :=
  (Predicate.compare "title" op (.text part)).holds (entitled title)

/-- The word that a title begins with is found, and an end that is not spelled as it is alone is
not. -/
theorem street_found : foundBy "ΟΔΟΣ ΑΒ" .startsWith "ΟΔΟΣ" = true ∧
    foundBy "ΟΔΟΣ ΑΒ" .contains "ΟΔΟΣ" = true ∧ foundBy "ΟΔΟΣ ΑΒ" .endsWith "Σ ΑΒ" = false := by
  have honly : (entitled "ΟΔΟΣ ΑΒ").valuesAt "title" = [.text "ΟΔΟΣ ΑΒ"] := rfl
  have hstored : Value.text "ΟΔΟΣ ΑΒ" ∈ (entitled "ΟΔΟΣ ΑΒ").valuesAt "title" := by simp [honly]
  have hword : "ΟΔΟΣ ΑΒ".toList = [] ++ "ΟΔΟΣ".toList ++ " ΑΒ".toList := by decide +kernel
  have hend : "ΟΔΟΣ ΑΒ".toList = "ΟΔΟ".toList ++ "Σ ΑΒ".toList ++ [] := by decide +kernel
  have halike : Text.SpelledAlike [] "ΟΔΟΣ".toList " ΑΒ".toList :=
    Text.spelledAlike_of_apart (by decide +kernel) (by decide +kernel)
  have hdiffers : ¬ Text.SpelledAlike "ΟΔΟ".toList "Σ ΑΒ".toList [] := fun h =>
    absurd (h [] " ΑΒ".toList (by decide +kernel)) (by decide +kernel)
  obtain ⟨hstarts, -, hcontains⟩ := (parts_found hstored hword).1 halike
  obtain ⟨-, hends⟩ := (parts_found hstored hend).2 hdiffers honly
  exact ⟨hstarts rfl, hcontains, hends rfl⟩

/-- Parts that stand in the title as they are, and are not found. -/
theorem sigma_not_found : "ΑΣΑ" = "ΑΣ" ++ "Α" ∧ foundBy "ΑΣΑ" .startsWith "ΑΣ" = false ∧
    foundBy "ΑΣΑ" .contains "ΑΣ" = false ∧ "ΑΣ" = "Α" ++ "Σ" ∧
    foundBy "ΑΣ" .endsWith "Σ" = false := by
  decide +kernel

end Library

end RecordGraph
