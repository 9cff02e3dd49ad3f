/-
# Quoted texts and lists in descriptions

A description of an object shows its texts in double quotes. Inside them a quote, a
backslash and the usual control characters are written with a backslash; a character that
would not be visible, or would melt into its neighbour, is written as its number in braces.
-/
import RecordGraph.Text.Case
import RecordGraph.Text.VisibleTable

namespace RecordGraph.Text

/-- Whether a character can be seen when printed on its own. -/
def isVisible (c : Char) : Bool :=
  let n := c.toNat
  if n < 0x80 then 0x20 ≤ n && n < 0x7F
  else !(inRanges extendingRanges n || inRanges invisibleRanges n)

/-- A number with small hexadecimal digits and no leading zero. -/
def hexadecimal (n : Nat) : String := String.ofList (Nat.toDigits 16 n)

/-- A character inside double quotes. -/
def quotedChar (c : Char) : String :=
  if c == '"' then "\\\""
  else if c == '\\' then "\\\\"
  else if c == '\n' then "\\n"
  else if c == '\r' then "\\r"
  else if c == '\t' then "\\t"
  else if c.toNat == 0 then "\\0"
  else if isVisible c then c.toString
  else "\\u\x7b" ++ hexadecimal c.toNat ++ "\x7d"

/-- A text in double quotes. -/
def quoted (s : String) : String :=
  "\"" ++ String.join (s.toList.map quotedChar) ++ "\""

/-- Several texts in double quotes, in brackets. -/
def quotedList (texts : List String) : String :=
  "[" ++ String.intercalate ", " (texts.map quoted) ++ "]"

/-- A name with its fields in braces. -/
def described (name : String) (fields : List (String × String)) : String :=
  name ++ " \x7b " ++ String.intercalate ", " (fields.map fun f => f.1 ++ ": " ++ f.2) ++ " \x7d"

end RecordGraph.Text
