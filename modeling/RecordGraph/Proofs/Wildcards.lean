/-
# What wildcard patterns match

A text fits a wildcard pattern if it can be cut into pieces, one for each character of the
pattern: any piece for a `%`, a piece of one character for a `_`, and the character itself for
any other. Matching never takes back a choice once it has come to the next `%`. It need not:
where the pattern goes on after a `%`, the earliest place at which the next segment fits leaves
the most text for the rest of the pattern.

What matching accepts can always be cut in this way. The converse asks that text and pattern do
not both contain a `%`: a `%` of the pattern that meets a `%` of the text is used up for it, and
then stands for nothing else.
-/
import Mathlib.Data.List.Forall2
import RecordGraph.Text.Wildcard

namespace RecordGraph.Text.Wildcard

/-! ## Cutting a text -/

/-- What a character of a pattern stands for. -/
def StandsFor (q : Char) (piece : List Char) : Prop :=
  if q = '%' then True else if q = '_' then piece.length = 1 else piece = [q]

/-- The text can be cut into what the characters of the pattern stand for. -/
def Matches (text pattern : List Char) : Prop :=
  ∃ pieces, pieces.flatten = text ∧ List.Forall₂ StandsFor pattern pieces

variable {c q : Char} {text pattern rest text' pattern' : List Char}

theorem standsFor_single (h : (q == '_' || q == c) = true) : StandsFor q [c] := by
  unfold StandsFor
  split
  · trivial
  · split
    · rfl
    · rename_i hplain
      rw [Bool.or_eq_true, beq_iff_eq, beq_iff_eq, or_iff_right hplain] at h
      rw [h]

@[simp] theorem matches_nil_iff : Matches text [] ↔ text = [] := by
  simp [Matches, eq_comm]

theorem Matches.cons {piece : List Char} (hpiece : StandsFor q piece) (h : Matches text pattern) :
    Matches (piece ++ text) (q :: pattern) := by
  obtain ⟨pieces, rfl, hpieces⟩ := h
  exact ⟨piece :: pieces, by simp, .cons hpiece hpieces⟩

/-- The first character of the pattern stands for a beginning of the text. -/
theorem Matches.exists_piece (h : Matches text (q :: pattern)) :
    ∃ piece rest, text = piece ++ rest ∧ StandsFor q piece ∧ Matches rest pattern := by
  obtain ⟨pieces, rfl, hpieces⟩ := h
  rw [List.forall₂_cons_left_iff] at hpieces
  obtain ⟨piece, others, hpiece, hothers, rfl⟩ := hpieces
  exact ⟨piece, others.flatten, by simp, hpiece, others, rfl, hothers⟩

/-- A character of the pattern that is no `%` stands for one character of the text. -/
theorem Matches.exists_char (h : Matches text (q :: pattern)) (hq : q ≠ '%') :
    ∃ c rest, text = c :: rest ∧ (q == '_' || q == c) = true ∧ Matches rest pattern := by
  obtain ⟨piece, rest, rfl, hpiece, hrest⟩ := h.exists_piece
  rw [StandsFor, if_neg hq] at hpiece
  split at hpiece
  · rename_i hany
    obtain ⟨c, rfl⟩ := List.length_eq_one_iff.mp hpiece
    exact ⟨c, rest, rfl, by simp [hany], hrest⟩
  · subst hpiece
    exact ⟨q, rest, rfl, by simp, hrest⟩

/-- A `%` takes in any text before that for which it stands. -/
theorem Matches.widen (h : Matches rest ('%' :: pattern)) (skipped : List Char) :
    Matches (skipped ++ rest) ('%' :: pattern) := by
  obtain ⟨piece, rest, rfl, -, hrest⟩ := h.exists_piece
  rw [← List.append_assoc]
  exact .cons (by simp [StandsFor]) hrest

theorem Matches.gap (h : Matches text pattern) : Matches text ('%' :: pattern) := by
  have hempty : StandsFor '%' [] := by simp [StandsFor]
  exact .cons hempty h

/-- Only a pattern of `%`s stands for no text. -/
theorem matches_nil_text_iff : Matches [] pattern ↔ pattern.all (· == '%') = true := by
  induction pattern with
  | nil => simp
  | cons q pattern ih =>
      rw [List.all_cons, Bool.and_eq_true, beq_iff_eq, ← ih]
      constructor
      · intro h
        by_cases hq : q = '%'
        · obtain ⟨piece, rest, hsplit, -, hrest⟩ := h.exists_piece
          rw [eq_comm, List.append_eq_nil_iff] at hsplit
          exact ⟨hq, hsplit.2 ▸ hrest⟩
        · obtain ⟨c, rest, hsplit, -⟩ := h.exists_char hq
          cases hsplit
      · rintro ⟨rfl, h⟩
        exact h.gap

/-! ## Segments -/

/-- What a segment says of the whole text, where the rest of the text fits the rest of the
pattern. -/
def Reach.Accepts : Reach → Prop
  | .mismatch => False
  | .finished fits => fits = true
  | .gap text pattern => Matches text ('%' :: pattern)

/-- What a segment accepts can be cut. -/
theorem matches_of_accepts (h : (segment text pattern).Accepts) : Matches text pattern := by
  fun_induction segment text pattern with
  | case1 pattern => exact matches_nil_text_iff.mpr h
  | case2 => exact h.elim
  | case3 c text q pattern hq ih => exact .cons (standsFor_single hq) (ih h)
  | case4 c text q pattern hq hgap =>
      rw [beq_iff_eq] at hgap
      exact hgap ▸ h
  | case5 => exact h.elim

/-- A segment reads as far as is needed: where the pattern stands for an end of the text, the
segment accepts, or the text before that end is not empty and the segment does not fit. -/
theorem accepts_of_matches (skipped : List Char)
    (hliteral : '%' ∈ skipped ++ rest → '%' ∉ pattern) (h : Matches rest pattern) :
    (segment (skipped ++ rest) pattern).Accepts ∨
      (segment (skipped ++ rest) pattern = .mismatch ∧ skipped ≠ []) := by
  -- the part that is skipped grows with every character that is read
  generalize htext : skipped ++ rest = text at hliteral
  fun_induction segment text pattern generalizing skipped rest with
  | case1 pattern =>
      rw [List.append_eq_nil_iff] at htext
      rw [htext.2] at h
      exact .inl (matches_nil_text_iff.mp h)
  | case2 c text =>
      rw [matches_nil_iff.mp h, List.append_nil] at htext
      exact .inr ⟨rfl, by simp [htext]⟩
  | case3 c text q pattern hq ih =>
      have hplain : q ≠ '%' := by
        rintro rfl
        have hc : '%' = c := by simpa using hq
        exact hliteral (hc ▸ List.mem_cons_self) List.mem_cons_self
      obtain ⟨d, rest, rfl, -, hrest⟩ := h.exists_char hplain
      have hothers : '%' ∈ text → '%' ∉ pattern := fun hmem hin =>
        hliteral (by simp [hmem]) (by simp [hin])
      cases skipped with
      | nil =>
          obtain ⟨-, rfl⟩ := List.cons.inj htext
          exact ih [] hrest rfl hothers
      | cons e others =>
          obtain ⟨-, rfl⟩ := List.cons.inj htext
          rcases ih (others ++ [d]) hrest (by simp) hothers with hread | ⟨hread, -⟩
          · exact .inl hread
          · exact .inr ⟨hread, by simp⟩
  | case4 c text q pattern hq hgap =>
      rw [beq_iff_eq] at hgap
      subst hgap
      exact .inl (htext ▸ h.widen skipped)
  | case5 c text q pattern hq hgap =>
      refine .inr ⟨rfl, ?_⟩
      rintro rfl
      obtain ⟨d, rest, rfl, hd, -⟩ := h.exists_char (by simpa using hgap)
      obtain ⟨rfl, -⟩ := List.cons.inj htext
      exact hq hd

/-- What is left after a segment was there before it. -/
theorem mem_of_segment_eq_gap (h : segment text pattern = .gap text' pattern') :
    (∀ d ∈ text', d ∈ text) ∧ ∀ d ∈ pattern', d ∈ pattern := by
  fun_induction segment text pattern with
  | case1 => cases h
  | case2 => cases h
  | case3 c text q pattern hq ih =>
      obtain ⟨htext, hpattern⟩ := ih h
      exact ⟨fun d hd => .tail c (htext d hd), fun d hd => .tail q (hpattern d hd)⟩
  | case4 c text q pattern =>
      obtain ⟨rfl, rfl⟩ := Reach.gap.inj h
      exact ⟨fun d hd => hd, fun d hd => .tail q hd⟩
  | case5 => cases h

/-! ## Whole patterns -/

theorem matches_of_afterGap (h : afterGap text pattern = true) :
    Matches text ('%' :: pattern) := by
  fun_induction afterGap text pattern with
  | case1 text pattern fits hsegment =>
      exact (matches_of_accepts (hsegment ▸ h)).gap
  | case2 text pattern text' pattern' hsegment ih =>
      exact (matches_of_accepts (hsegment ▸ ih h)).gap
  | case3 => cases h
  | case4 pattern c rest hsegment ih => exact (ih h).widen [c]

/-- After a `%` the first place at which the next segment fits will do: a later place leaves
less of the text, and the `%` after the segment takes in whatever is left. -/
theorem afterGap_of_matches (hliteral : '%' ∈ text → '%' ∉ pattern)
    (h : Matches text ('%' :: pattern)) : afterGap text pattern = true := by
  fun_induction afterGap text pattern with
  | case1 text pattern fits hsegment =>
      obtain ⟨skipped, rest, rfl, -, hrest⟩ := h.exists_piece
      simpa [hsegment, Reach.Accepts] using accepts_of_matches skipped hliteral hrest
  | case2 text pattern text' pattern' hsegment ih =>
      obtain ⟨skipped, rest, rfl, -, hrest⟩ := h.exists_piece
      obtain ⟨htext, hpattern⟩ := mem_of_segment_eq_gap hsegment
      refine ih (fun hmem hin => hliteral (htext _ hmem) (hpattern _ hin)) ?_
      simpa [hsegment, Reach.Accepts] using accepts_of_matches skipped hliteral hrest
  | case3 pattern hsegment =>
      obtain ⟨skipped, rest, hsplit, -, hrest⟩ := h.exists_piece
      obtain ⟨rfl, rfl⟩ := List.append_eq_nil_iff.mp hsplit.symm
      simpa [hsegment, Reach.Accepts] using accepts_of_matches [] hliteral hrest
  | case4 pattern c text hsegment ih =>
      obtain ⟨skipped, rest, hsplit, -, hrest⟩ := h.exists_piece
      cases skipped with
      | nil =>
          rw [List.nil_append] at hsplit
          subst hsplit
          simpa [hsegment, Reach.Accepts] using
            accepts_of_matches [] hliteral hrest
      | cons d others =>
          obtain ⟨rfl, rfl⟩ := List.cons.inj hsplit
          exact ih (fun hmem => hliteral (.tail c hmem)) (hrest.gap.widen others)

theorem matches_of_fits (h : fits text pattern = true) : Matches text pattern := by
  unfold fits at h
  split at h
  · rename_i hsegment
    exact matches_of_accepts (by simpa [hsegment, Reach.Accepts] using h)
  · rename_i hsegment
    exact matches_of_accepts (by simpa [hsegment, Reach.Accepts] using matches_of_afterGap h)
  · cases h

theorem fits_of_matches (hliteral : '%' ∈ text → '%' ∉ pattern) (h : Matches text pattern) :
    fits text pattern = true := by
  have haccepts := accepts_of_matches [] hliteral h
  rw [List.nil_append] at haccepts
  unfold fits
  split
  · rename_i hsegment
    simpa [hsegment, Reach.Accepts] using haccepts
  · rename_i hsegment
    obtain ⟨htext, hpattern⟩ := mem_of_segment_eq_gap hsegment
    refine afterGap_of_matches (fun hmem hin => hliteral (htext _ hmem) (hpattern _ hin)) ?_
    simpa [hsegment, Reach.Accepts] using haccepts
  · rename_i hsegment
    simp [hsegment, Reach.Accepts] at haccepts

end RecordGraph.Text.Wildcard

namespace RecordGraph.Text

/-- Matching accepts nothing that cannot be cut, and accepts all that can be cut where the text
or the pattern has no `%`. -/
theorem fitsPattern_iff_matches (text pattern : String) :
    (fitsPattern text pattern = true → Wildcard.Matches text.toList pattern.toList) ∧
      (('%' ∈ text.toList → '%' ∉ pattern.toList) →
        (fitsPattern text pattern = true ↔ Wildcard.Matches text.toList pattern.toList)) :=
  ⟨Wildcard.matches_of_fits, fun hliteral =>
    ⟨Wildcard.matches_of_fits, Wildcard.fits_of_matches hliteral⟩⟩

/-- A text without `%` against patterns with two, and a text with `%` against a pattern
without. -/
theorem fitsPattern_banana :
    Wildcard.Matches "banana".toList "_a%n_%".toList ∧
      ¬ Wildcard.Matches "banana".toList "_a%n%_n".toList ∧
      Wildcard.Matches "5%".toList "5_".toList := by
  have hfits : fitsPattern "banana" "_a%n_%" = true := by cbv
  have hother : fitsPattern "banana" "_a%n%_n" = false := by cbv
  have hpercent : fitsPattern "5%" "5_" = true := by cbv
  exact ⟨((fitsPattern_iff_matches "banana" "_a%n_%").2 (by decide +kernel)).mp hfits,
    fun h => Bool.false_ne_true <| hother.symm.trans <|
      ((fitsPattern_iff_matches "banana" "_a%n%_n").2 (by decide +kernel)).mpr h,
    ((fitsPattern_iff_matches "5%" "5_").2 (by decide +kernel)).mp hpercent⟩

/-- The only `%` of the pattern is used up for that of the text. -/
theorem fitsPattern_literal_percent :
    fitsPattern "%a" "%" = false ∧ Wildcard.Matches "%a".toList "%".toList := by
  have hcut : Wildcard.Matches ("%a".toList ++ []) ('%' :: []) :=
    (Wildcard.matches_nil_iff.mpr rfl).gap.widen "%a".toList
  rw [List.append_nil] at hcut
  exact ⟨by decide +kernel, hcut⟩

end RecordGraph.Text
