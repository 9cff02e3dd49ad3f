/-
# Values in writing

The compact JSON text of a value. A float is written with the fewest digits that read back,
positionally while its leading digit is between the fifth place after the point and the
sixteenth before it, and with an exponent beyond; a positional float always has a point.
-/
import RecordGraph.Decimal.Shortest
import RecordGraph.Value.Basic

namespace RecordGraph.Value

/-- The digits `ds` with `k` as the place of the last one, written out with a point. -/
def positional (ds : List Char) (k : Int) : List Char :=
  if 0 ≤ k then ds ++ List.replicate k.toNat '0' ++ ['.', '0']
  else
    let places := (-k).toNat
    if places < ds.length then
      ds.take (ds.length - places) ++ ['.'] ++ ds.drop (ds.length - places)
    else ['0', '.'] ++ List.replicate (places - ds.length) '0' ++ ds

/-- One digit before the point, the others after it, and the exponent with its sign. -/
def withExponent (ds : List Char) (e : Int) : List Char :=
  let fraction := ds.drop 1
  ds.take 1 ++ (if fraction.isEmpty then [] else '.' :: fraction) ++
    ['e', if 0 ≤ e then '+' else '-'] ++ Nat.toDigits 10 e.natAbs

/-- A float in writing; infinities and NaN have no JSON form and are written as null. -/
def floatText (x : Float) : String :=
  match Decimal.Binary64.ofFloat? x with
  | none => "null"
  | some b =>
    let magnitude :=
      if b.mantissa == 0 then ['0', '.', '0']
      else
        let s := Decimal.shortest b
        let ds := Nat.toDigits 10 s.digits
        let e : Int := s.exponent + ds.length - 1
        if -5 ≤ e && e ≤ 15 then positional ds s.exponent else withExponent ds e
    String.ofList (if b.negative then '-' :: magnitude else magnitude)

/-- A character inside a JSON text. -/
def escapedChar (c : Char) : String :=
  if c == '"' then "\\\""
  else if c == '\\' then "\\\\"
  else if c == '\n' then "\\n"
  else if c == '\r' then "\\r"
  else if c == '\t' then "\\t"
  else if c.toNat == 8 then "\\b"
  else if c.toNat == 12 then "\\f"
  else if c.toNat < 16 then "\\u000" ++ String.ofList (Nat.toDigits 16 c.toNat)
  else if c.toNat < 32 then "\\u00" ++ String.ofList (Nat.toDigits 16 c.toNat)
  else c.toString

/-- A JSON text. -/
def escaped (s : String) : String := "\"" ++ String.join (s.toList.map escapedChar) ++ "\""

mutual

/-- The compact JSON text of a value. -/
def render : Value → String
  | .null => "null"
  | .bool true => "true"
  | .bool false => "false"
  | .int n => toString n
  | .float x => floatText x
  | .text s => escaped s
  | .list items => "[" ++ String.intercalate "," (renderItems items) ++ "]"
  | .object members => "\x7b" ++ String.intercalate "," (renderMembers members) ++ "\x7d"

/-- The JSON texts of list items. -/
def renderItems : List Value → List String
  | [] => []
  | v :: rest => render v :: renderItems rest

/-- The JSON texts of the members of an object. -/
def renderMembers : List (String × Value) → List String
  | [] => []
  | (k, v) :: rest => (escaped k ++ ":" ++ render v) :: renderMembers rest

end

/-- What a value looks like as plain text: a text is itself, all else its JSON text. -/
def plainText : Value → String
  | .text s => s
  | v => v.render

/-- The identifier that a value spells: a text that is not empty, or a number. -/
def toId? : Value → Option String
  | .text s => if s.isEmpty then none else some s
  | .int n => some (render (.int n))
  | .float x => some (render (.float x))
  | _ => none

end RecordGraph.Value
