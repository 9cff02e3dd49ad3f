/-
# Numerals

Unsigned decimal numerals that fit in a machine word. A single plus sign may stand in
front; anything else but digits is refused, and so is a number past the limit, however
many leading zeros a numeral has.
-/

namespace RecordGraph.Text

/-- The value of a decimal digit of ASCII. -/
def digit? (c : Char) : Option Nat :=
  if '0' ≤ c && c ≤ '9' then some (c.toNat - '0'.toNat) else none

/-- The number that digits spell after the number read so far. -/
def digitsFrom? (n : Nat) : List Char → Option Nat
  | [] => some n
  | c :: rest => (digit? c).bind fun d => digitsFrom? (10 * n + d) rest

/-- The number that at least one digit spells. -/
def digits? (cs : List Char) : Option Nat :=
  if cs.isEmpty then none else digitsFrom? 0 cs

/-- The largest number of a machine word. -/
def wordMax : Nat := 18446744073709551615

/-- A numeral of any size, with an optional plus sign. -/
def numeral? : List Char → Option Nat
  | '+' :: rest => digits? rest
  | cs => digits? cs

/-- A numeral that fits in a machine word. -/
def word? (s : String) : Option Nat :=
  (numeral? s.toList).bind fun n => if n ≤ wordMax then some n else none

end RecordGraph.Text
