/-
# Condition logic

How the conditions of a group are combined: a tree of conjunctions over the positions of
the conditions. In the written form conditions are numbered from one; a number without a
condition is passed over, and a conjunction that is left with nothing is dropped.

A conjunction governs what follows it in its list, up to the next conjunction; a nested list
belongs to the conjunction before it.
-/
import RecordGraph.Condition.Conjunction
import RecordGraph.Logic.Token
import RecordGraph.Text.Numeral

namespace RecordGraph.Logic

/-- A tree of conjunctions over positions of conditions. -/
inductive Expr where
  /-- The condition at a position, counted from zero. -/
  | condition (index : Nat)
  /-- Several expressions under a conjunction. -/
  | group (conjunction : Conjunction) (children : List Expr)
  deriving Repr, Inhabited

mutual

/-- The positions in an expression, left to right. -/
def Expr.indices : Expr → List Nat
  | .condition i => [i]
  | .group _ children => indicesOf children

/-- The positions in several expressions, left to right. -/
def indicesOf : List Expr → List Nat
  | [] => []
  | e :: rest => e.indices ++ indicesOf rest

end

mutual

/-- The truth of an expression, given the truth of the condition at each position. -/
def Expr.eval (holds : Nat → Bool) : Expr → Bool
  | .condition i => holds i
  | .group c children => c.eval (evalEach holds children)

/-- The truth of each of several expressions. -/
def evalEach (holds : Nat → Bool) : List Expr → List Bool
  | [] => []
  | e :: rest => e.eval holds :: evalEach holds rest

end

/-- What a list compiles to while it is read. -/
structure Compiled where
  /-- The finished expressions. -/
  base : List Expr
  /-- The conjunction that governs what comes next, with what it governs so far. -/
  governing : Option (Conjunction × List Expr)

namespace Compiled

/-- Ends the governing conjunction; one that governs nothing constrains nothing. -/
def flush (s : Compiled) : List Expr :=
  match s.governing with
  | none => s.base
  | some (c, children) => if children.isEmpty then s.base else s.base ++ [.group c children]

/-- One more expression, under the governing conjunction if there is one. -/
def push (s : Compiled) (e : Expr) : Compiled :=
  match s.governing with
  | none => ⟨s.base ++ [e], none⟩
  | some (c, children) => ⟨s.base, some (c, children ++ [e])⟩

/-- One more word: a conjunction, or the number of one of `count` conditions. -/
def word (count : Nat) (s : Compiled) (w : String) : Except Error Compiled :=
  match Conjunction.parse? w with
  | some c => .ok ⟨s.flush, some (c, [])⟩
  | none =>
    match Text.word? w with
    | none => .error (.invalidQuery (.unexpectedToken w))
    | some n => .ok (if n = 0 || count < n then s else s.push (.condition (n - 1)))

end Compiled

mutual

/-- Reads one element. A nested list is read as a continuation of what governs it. -/
def compileToken (count : Nat) : Token → Compiled → Except Error Compiled
  | .word w, s => s.word count w
  | .list block, s =>
    match s.governing with
    | none => .error (.invalidQuery .strayBlock)
    | some (c, children) =>
      match compileTokens count block ⟨children, none⟩ with
      | .error e => .error e
      | .ok inner => .ok ⟨s.base, some (c, inner.flush)⟩

/-- Reads the elements of a list one after the other. -/
def compileTokens (count : Nat) : List Token → Compiled → Except Error Compiled
  | [], s => .ok s
  | t :: rest, s =>
    match compileToken count t s with
    | .error e => .error e
    | .ok s' => compileTokens count rest s'

end

/-- The expressions that a text writes, all of which must hold. -/
def compile (expression : String) (count : Nat) : Except Error (List Expr) :=
  if Text.isBlankText expression then .error (.invalidQuery .emptyLogic)
  else
    match Token.parse expression with
    | .error e => .error e
    | .ok [] => .error (.invalidQuery (.noTokens expression))
    | .ok tokens => (compileTokens count tokens ⟨[], none⟩).map Compiled.flush

/-- The written form of one conjunction over the first `count` conditions. -/
def defaultText (c : Conjunction) (count : Nat) : String :=
  c.text ++ "(" ++ String.intercalate "," ((List.range count).map fun i => toString (i + 1)) ++ ")"

end RecordGraph.Logic
