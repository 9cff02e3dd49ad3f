/-
# Nested lists of words

The surface form of condition logic: words separated by commas and grouped by parentheses.
A word directly before an opening parenthesis becomes the first element of the list that
opens there, so `AND(1,OR(2,3))` is the list `AND`, `1`, (`OR`, `2`, `3`). White space is
dropped wherever it stands, even inside a word.
-/
import RecordGraph.Error
import RecordGraph.Text.Blank

namespace RecordGraph.Logic

/-- A word, or a list in parentheses. -/
inductive Token where
  /-- A word. -/
  | word (w : String)
  /-- A list. -/
  | list (tokens : List Token)
  deriving Repr, Inhabited

/-- A text that is being read. -/
structure Scan where
  /-- The lists that are still open around the current one, innermost first. -/
  outer : List (List Token)
  /-- The elements of the current list so far. -/
  current : List Token
  /-- The characters of the word being read. -/
  pending : List Char

namespace Scan

/-- Nothing read yet. -/
def start : Scan := ⟨[], [], []⟩

/-- Ends the word being read. -/
def flush (s : Scan) : Scan :=
  if s.pending.isEmpty then s
  else ⟨s.outer, s.current ++ [.word (String.ofList s.pending)], []⟩

/-- Opens a list; the word being read becomes its first element. -/
def openList (s : Scan) : Scan :=
  ⟨s.current :: s.outer,
    if s.pending.isEmpty then [] else [.word (String.ofList s.pending)], []⟩

/-- Closes the current list, if one is open. -/
def closeList? (s : Scan) : Option Scan :=
  let s := s.flush
  match s.outer with
  | [] => none
  | parent :: outer => some ⟨outer, parent ++ [.list s.current], []⟩

/-- One more character. Fails only on a closing parenthesis that closes nothing. -/
def step? (s : Scan) (c : Char) : Option Scan :=
  if c = '(' then some s.openList
  else if c = ')' then s.closeList?
  else if c = ',' then some s.flush
  else if Text.isBlank c then some s
  else some ⟨s.outer, s.current, s.pending ++ [c]⟩

/-- Reads characters from a position on; fails with the position of a stray parenthesis. -/
def run (s : Scan) (position : Nat) : List Char → Except Nat Scan
  | [] => .ok s
  | c :: rest =>
    match s.step? c with
    | none => .error position
    | some s' => s'.run (position + 1) rest

end Scan

mutual

/-- What a token that stands alone comes to, without the lists that enclose everything. -/
def Token.strip : Token → List Token
  | .word w => [.word w]
  | .list inner => stripOuter inner

/-- Takes away the lists that enclose everything. -/
def stripOuter : List Token → List Token
  | [t] => t.strip
  | tokens => tokens

end

/-- The nested list that a text writes. -/
def Token.parse (expression : String) : Except Error (List Token) :=
  match Scan.start.run 0 expression.toList with
  | .error position => .error (.invalidQuery (.unbalanced position expression))
  | .ok s =>
    if s.outer.isEmpty then .ok (stripOuter s.flush.current)
    else .error (.invalidQuery (.unclosed s.outer.length expression))

end RecordGraph.Logic
