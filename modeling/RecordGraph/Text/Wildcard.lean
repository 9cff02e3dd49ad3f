/-
# Wildcard patterns

Matching of a text against a pattern in which `%` stands for any run of characters and `_`
for any one character. The pattern is read in segments between its `%`s: after a `%` the
next segment is tried at every position of the text from left to right, and once the
segment after it is reached no earlier choice is taken back.

A pattern character that equals the character of the text is taken literally before it is
read as `%`. A text that holds a `%` can therefore use up a `%` of the pattern.
-/

namespace RecordGraph.Text.Wildcard

/-- How far a segment of a pattern gets. -/
inductive Reach where
  /-- A character of the text does not fit. -/
  | mismatch
  /-- The text is used up; the flag says whether the rest of the pattern can be empty. -/
  | finished (fits : Bool)
  /-- A `%` was read; these are the rest of the text and the pattern after the `%`. -/
  | gap (text pattern : List Char)

/-- Reads text and pattern side by side up to the next `%`. -/
def segment : (text pattern : List Char) → Reach
  | [], pattern => .finished (pattern.all (· == '%'))
  | _ :: _, [] => .mismatch
  | c :: text, q :: pattern =>
    if q == '_' || q == c then segment text pattern
    else if q == '%' then .gap (c :: text) pattern
    else .mismatch

theorem length_lt_of_segment_eq_gap {text pattern text' pattern' : List Char}
    (h : segment text pattern = .gap text' pattern') : pattern'.length < pattern.length := by
  fun_induction segment text pattern with
  | case1 => simp at h
  | case2 => simp at h
  | case3 c text q pattern hq ih => have := ih h; simp; omega
  | case4 => simp at h; simp [h.2]
  | case5 => simp at h

/-- Tries the pattern after a `%` at the start of the text and at every later position. -/
def afterGap (text pattern : List Char) : Bool :=
  match _h : segment text pattern with
  | .finished fits => fits
  | .gap text' pattern' => afterGap text' pattern'
  | .mismatch =>
    match text with
    | [] => false
    | _ :: rest => afterGap rest pattern
termination_by (pattern.length, text.length)
decreasing_by
  · exact Prod.Lex.left _ _ (length_lt_of_segment_eq_gap _h)
  · exact Prod.Lex.right _ (by simp)

/-- Whether the whole text fits the pattern. -/
def fits (text pattern : List Char) : Bool :=
  match segment text pattern with
  | .finished fits => fits
  | .gap text' pattern' => afterGap text' pattern'
  | .mismatch => false

end RecordGraph.Text.Wildcard

namespace RecordGraph.Text

/-- Whether the whole text fits the wildcard pattern. -/
def fitsPattern (text pattern : String) : Bool := Wildcard.fits text.toList pattern.toList

end RecordGraph.Text
