/-
# Blanks

Which characters count as white space, and the two readings that depend on it: a text
without the blanks around it, and the words of a text. The class is Unicode's White_Space
property; it holds neither the zero-width space nor the byte order mark.
-/

namespace RecordGraph.Text

/-- Whether a character is white space. -/
def isBlank (c : Char) : Bool :=
  let n := c.toNat
  (9 ≤ n && n ≤ 13) || n == 0x20 || n == 0x85 || n == 0xA0 || n == 0x1680 ||
    (0x2000 ≤ n && n ≤ 0x200A) || n == 0x2028 || n == 0x2029 || n == 0x202F ||
    n == 0x205F || n == 0x3000

/-- Characters without the blanks before the first and after the last other character. -/
def trimChars (cs : List Char) : List Char :=
  ((cs.dropWhile isBlank).reverse.dropWhile isBlank).reverse

/-- A text without the blanks around it. -/
def trim (s : String) : String := String.ofList (trimChars s.toList)

/-- Whether a text holds nothing but blanks. -/
def isBlankText (s : String) : Bool := s.toList.all isBlank

/-- The maximal runs of other characters, given the run that is still open. -/
def wordsFrom (run : List Char) : List Char → List (List Char)
  | [] => if run.isEmpty then [] else [run]
  | c :: rest =>
    if isBlank c then
      if run.isEmpty then wordsFrom [] rest else run :: wordsFrom [] rest
    else wordsFrom (run ++ [c]) rest

/-- The words of a text: its maximal runs of characters that are no blanks. -/
def words (s : String) : List String := (wordsFrom [] s.toList).map String.ofList

theorem dropWhile_isBlank_eq_nil_iff (cs : List Char) :
    cs.dropWhile isBlank = [] ↔ cs.all isBlank = true := by
  induction cs with
  | nil => simp
  | cons c rest ih => by_cases h : isBlank c <;> simp [h, ih]

/-- Trimming leaves nothing exactly when there was nothing but blanks. -/
theorem trimChars_eq_nil_iff (cs : List Char) : trimChars cs = [] ↔ cs.all isBlank = true := by
  have h : ∀ ds : List Char, (∀ d ∈ ds.head?, isBlank d = false) →
      (ds.reverse.dropWhile isBlank = [] ↔ ds = []) := by
    intro ds hd
    rw [dropWhile_isBlank_eq_nil_iff, List.all_reverse]
    cases ds with
    | nil => simp
    | cons d rest => simp [hd d (by simp)]
  unfold trimChars
  rw [List.reverse_eq_nil_iff, h, dropWhile_isBlank_eq_nil_iff]
  intro d hd
  have := List.head?_dropWhile_not isBlank cs
  cases hc : cs.dropWhile isBlank with
  | nil => simp [hc] at hd
  | cons e rest =>
    rw [hc] at hd this
    simp at hd this
    subst hd
    simpa using this

end RecordGraph.Text
