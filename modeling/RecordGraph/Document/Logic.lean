/-
# Condition logic as documents

Nested lists of words are written as lists of texts. An expression is the position of its
condition, or its conjunction with the list of what is combined.
-/
import RecordGraph.Document.Basic
import RecordGraph.Logic.Expr

namespace RecordGraph.Logic

mutual

/-- Writes a word or a list. -/
def Token.toDocument : Token → Value
  | .word w => .text w
  | .list tokens => .list (Token.toDocuments tokens)

/-- Writes words and lists. -/
def Token.toDocuments : List Token → List Value
  | [] => []
  | t :: rest => t.toDocument :: Token.toDocuments rest

end

mutual

/-- Writes an expression. -/
def Expr.toDocument : Expr → Value
  | .condition i => .int i
  | .group c children => Document.chosen c.text (.list (Expr.toDocuments children))

/-- Writes expressions. -/
def Expr.toDocuments : List Expr → List Value
  | [] => []
  | e :: rest => e.toDocument :: Expr.toDocuments rest

end

end RecordGraph.Logic
