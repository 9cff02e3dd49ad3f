/-
# Reading values

The reader of JSON documents. Characters are first gathered into tokens, one state per kind
of token; the tokens are then folded into values over a stack of open lists and objects.
Both steps look at each character or token once, so no measure is needed.

A numeral without point and exponent is a whole number as long as it fits; every other one
is a float. A float is read in two rounded steps: the digits that fit in a machine word
become a float, and that float is scaled by a power of ten.
-/
import RecordGraph.Decimal.Reading
import RecordGraph.Value.Basic

namespace RecordGraph.Value.Reader

/-! ## Numbers -/

/-- A number as it is read: digits that fit in a machine word, and a power of ten. -/
structure Digits where
  /-- The digits read so far, as a number. -/
  significand : Nat
  /-- The power of ten that goes with them. -/
  exponent : Int
  /-- Whether a digit was left out because the word was full. -/
  full : Bool

/-- One more digit before the point. Once the word is full, digits only count. -/
def Digits.whole (d : Digits) (n : Nat) : Digits :=
  let next := 10 * d.significand + n
  if d.full || Text.wordMax < next then ⟨d.significand, d.exponent + 1, true⟩
  else ⟨next, d.exponent, false⟩

/-- One more digit after the point. Digits that do not fit are dropped. -/
def Digits.fraction (d : Digits) (n : Nat) : Digits :=
  let next := 10 * d.significand + n
  if d.full || Text.wordMax < next then ⟨d.significand, d.exponent, true⟩
  else ⟨next, d.exponent - 1, false⟩

/-- The float next to `10 ^ n`. -/
def powerOfTen (n : Nat) : Float := Decimal.toFloat 1 n

/-- A float scaled by a power of ten, down in at most two steps; nothing if it overflows. -/
def scaled? (x : Float) (e : Int) : Option Float :=
  if x == 0 then some x
  else if 0 ≤ e then
    if 308 < e then none
    else
      let y := x * powerOfTen e.toNat
      if y == Float.ofBits 0x7FF0000000000000 then none else some y
  else if -308 ≤ e then some (x / powerOfTen (-e).toNat)
  else if -616 ≤ e then some (x / powerOfTen 308 / powerOfTen (-e - 308).toNat)
  else some 0

/-- A numeral with its sign taken off. -/
def number? (negative : Bool) (cs : List Char) : Option Value :=
  let value (c : Char) : Nat := c.toNat - '0'.toNat
  let wholes := cs.takeWhile Decimal.isDigit
  let rest := cs.dropWhile Decimal.isDigit
  let whole := wholes.foldl (fun d c => d.whole (value c)) ⟨0, 0, false⟩
  let signed (d : Digits) (e : Int) : Option Value :=
    (scaled? (Float.ofNat d.significand) e).map fun x => .float (if negative then -x else x)
  if wholes.isEmpty then none
  else
    match rest with
    | [] =>
      if whole.full then signed whole whole.exponent
      else if !negative then some (.int whole.significand)
      else if whole.significand == 0 || Nat.pow 2 63 < whole.significand then
        signed whole whole.exponent
      else some (.int (-(whole.significand : Int)))
    | c :: after =>
      let fractions := if c == '.' then after.takeWhile Decimal.isDigit else []
      let tail := if c == '.' then after.dropWhile Decimal.isDigit else rest
      if c == '.' && fractions.isEmpty then none
      else
        let all := fractions.foldl (fun d c => d.fraction (value c))
          ⟨whole.significand, whole.exponent, false⟩
        match tail with
        | [] => signed all all.exponent
        | e :: ds =>
          if e == 'e' || e == 'E' then
            (Decimal.exponent? ds).bind fun n => signed all (all.exponent + n)
          else none

/-- A numeral. -/
def numeral? : List Char → Option Value
  | '-' :: cs => number? true cs
  | cs => number? false cs

/-! ## Tokens -/

/-- The tokens of a document. -/
inductive Token where
  /-- A bracket, brace, comma or colon. -/
  | mark (c : Char)
  /-- A text in quotes. -/
  | quote (s : String)
  /-- A word or a number. -/
  | atom (v : Value)

/-- What the character before was part of. The characters of a token are kept in reverse. -/
inductive Mode where
  /-- Nothing. -/
  | between
  /-- A text; `high` is the first half of a character written as two numbers. -/
  | inText (read : List Char) (high : Option Nat)
  /-- A text, after a backslash. -/
  | escape (read : List Char) (high : Option Nat)
  /-- A text, inside the four digits of a character number. -/
  | code (read : List Char) (high : Option Nat) (missing value : Nat)
  /-- A word or a number. -/
  | inAtom (read : List Char)

/-- The value of a word or number. -/
def atom? (read : List Char) : Option Value :=
  let cs := read.reverse
  if cs == "null".toList then some .null
  else if cs == "true".toList then some (.bool true)
  else if cs == "false".toList then some (.bool false)
  else numeral? cs

/-- The value of a hexadecimal digit. -/
def hexDigit? (c : Char) : Option Nat :=
  if '0' ≤ c && c ≤ '9' then some (c.toNat - '0'.toNat)
  else if 'a' ≤ c && c ≤ 'f' then some (c.toNat - 'a'.toNat + 10)
  else if 'A' ≤ c && c ≤ 'F' then some (c.toNat - 'A'.toNat + 10)
  else none

/-- The character that a letter after a backslash stands for. -/
def escapeOf? (c : Char) : Option Char :=
  match c with
  | '"' => some '"'
  | '\\' => some '\\'
  | '/' => some '/'
  | 'b' => some (Char.ofNat 8)
  | 'f' => some (Char.ofNat 12)
  | 'n' => some '\n'
  | 'r' => some '\r'
  | 't' => some '\t'
  | _ => none

/-- A finished character number: a whole character, or half of one. -/
def codeRead? (read : List Char) (high : Option Nat) (n : Nat) : Option Mode :=
  match high with
  | none =>
    if 0xD800 ≤ n && n < 0xDC00 then some (.inText read (some n))
    else if 0xDC00 ≤ n && n < 0xE000 then none
    else some (.inText (Char.ofNat n :: read) none)
  | some h =>
    if 0xDC00 ≤ n && n < 0xE000 then
      some (.inText (Char.ofNat (0x10000 + (h - 0xD800) * 0x400 + (n - 0xDC00)) :: read) none)
    else none

/-- The step for a character that begins a token or stands between tokens. -/
def start? (tokens : List Token) (c : Char) : Option (Mode × List Token) :=
  if c == ' ' || c == '\n' || c == '\r' || c == '\t' then some (.between, tokens)
  else if c == '"' then some (.inText [] none, tokens)
  else if ['[', ']', ',', ':', '\x7b', '\x7d'].contains c then
    some (.between, .mark c :: tokens)
  else some (.inAtom [c], tokens)

/-- One more character; the tokens are kept in reverse. -/
def step? : Mode × List Token → Char → Option (Mode × List Token)
  | (.between, tokens), c => start? tokens c
  | (.inText read high, tokens), c =>
    if c == '\\' then some (.escape read high, tokens)
    else if high.isSome then none
    else if c == '"' then some (.between, .quote (String.ofList read.reverse) :: tokens)
    else if c.toNat < 32 then none
    else some (.inText (c :: read) none, tokens)
  | (.escape read high, tokens), c =>
    if c == 'u' then some (.code read high 4 0, tokens)
    else if high.isSome then none
    else (escapeOf? c).map fun e => (.inText (e :: read) none, tokens)
  | (.code read high missing value, tokens), c =>
    (hexDigit? c).bind fun d =>
      let value := 16 * value + d
      if missing ≤ 1 then (codeRead? read high value).map fun mode => (mode, tokens)
      else some (.code read high (missing - 1) value, tokens)
  | (.inAtom read, tokens), c =>
    if c.isAlphanum || c == '.' || c == '+' || c == '-' then some (.inAtom (c :: read), tokens)
    else (atom? read).bind fun v => start? (.atom v :: tokens) c

/-- The tokens of a document. -/
def tokens? (cs : List Char) : Option (List Token) :=
  match cs.foldlM step? (Mode.between, []) with
  | some (.between, tokens) => some tokens.reverse
  | some (.inAtom read, tokens) => (atom? read).map fun v => (Token.atom v :: tokens).reverse
  | _ => none

/-! ## Values from tokens -/

/-- A list or an object that is still open, its contents in reverse. -/
inductive Frame where
  /-- A list. -/
  | list (items : List Value)
  /-- An object, and the key whose value is being read. -/
  | object (members : List (String × Value)) (key : String)

/-- What may come next. -/
inductive Next where
  /-- A value. -/
  | value
  /-- A value, or the end of the list just opened. -/
  | itemOrEnd
  /-- A key, or the end of the object just opened. -/
  | keyOrEnd (members : List (String × Value))
  /-- A key. -/
  | key (members : List (String × Value))
  /-- The colon after a key. -/
  | colon (members : List (String × Value)) (key : String)
  /-- A comma or the end of what is open; without anything open, the end of the document. -/
  | afterValue (v : Value)

/-- The state after a value. -/
abbrev Progress := List Frame × Next

/-- A value was read where a value may stand. -/
def place (frames : List Frame) (v : Value) : Progress := (frames, .afterValue v)

/-- A token where a value may stand. -/
def valueStep? (frames : List Frame) : Token → Option Progress
  | .atom v => some (place frames v)
  | .quote s => some (place frames (.text s))
  | .mark c =>
    if c == '[' then some (.list [] :: frames, .itemOrEnd)
    else if c == '\x7b' then some (frames, .keyOrEnd [])
    else none

/-- One more token. -/
def tokenStep? : Progress → Token → Option Progress
  | (frames, .value), t => valueStep? frames t
  | (.list items :: frames, .itemOrEnd), .mark ']' => some (place frames (.list items.reverse))
  | (frames, .itemOrEnd), t => valueStep? frames t
  | (frames, .keyOrEnd members), .quote k => some (frames, .colon members k)
  | (frames, .keyOrEnd members), .mark c =>
    if c == '\x7d' then some (place frames (ofMembers members.reverse)) else none
  | (frames, .key members), .quote k => some (frames, .colon members k)
  | (frames, .colon members k), .mark ':' => some (.object members k :: frames, .value)
  | (.list items :: frames, .afterValue v), .mark c =>
    if c == ',' then some (.list (v :: items) :: frames, .value)
    else if c == ']' then some (place frames (.list (v :: items).reverse))
    else none
  | (.object members k :: frames, .afterValue v), .mark c =>
    if c == ',' then some (frames, .key ((k, v) :: members))
    else if c == '\x7d' then some (place frames (ofMembers ((k, v) :: members).reverse))
    else none
  | _, _ => none

end Reader

/-- The value that a JSON document holds. -/
def read? (document : String) : Option Value :=
  (Reader.tokens? document.toList).bind fun tokens =>
    match tokens.foldlM Reader.tokenStep? ([], Reader.Next.value) with
    | some ([], .afterValue v) => some v
    | _ => none

end RecordGraph.Value
