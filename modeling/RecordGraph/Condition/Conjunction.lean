/-
# Conjunctions

The two ways to combine conditions. A conjunction is written in any letter case, and blanks
around it do not matter.
-/
import RecordGraph.Error
import RecordGraph.Text.Blank
import RecordGraph.Text.Case

namespace RecordGraph

/-- How several conditions are combined. -/
inductive Conjunction where
  /-- All must hold. -/
  | and
  /-- One must hold. -/
  | or
  deriving DecidableEq, Repr, Inhabited

namespace Conjunction

/-- The written form. -/
def text : Conjunction → String
  | .and => "AND"
  | .or => "OR"

/-- The conjunction that a text spells. -/
def parse? (s : String) : Option Conjunction :=
  let spelling := Text.upper (Text.trim s)
  if spelling = "AND" then some .and
  else if spelling = "OR" then some .or
  else none

/-- The conjunction that a text spells; the refusal quotes the text as it was compared. -/
def parse (s : String) : Except Error Conjunction :=
  match parse? s with
  | some c => .ok c
  | none => .error (.invalidQuery (.unknownConjunction (Text.upper (Text.trim s))))

/-- The truth value that a conjunction gives to several truth values. -/
def eval (c : Conjunction) (truths : List Bool) : Bool :=
  match c with
  | .and => truths.all id
  | .or => truths.any id

end Conjunction

end RecordGraph
