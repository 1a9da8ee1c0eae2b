import FlatQuery.Text.Blank

/-!
Signed 64-bit integers as text: decimal notation and the range.  Values are carried as `Int`;
what does not fit the range is refused where it arises.
-/

namespace FlatQuery.Integer

/-- Whether the value fits a signed word of 64 bits. -/
def fits (n : Int) : Bool :=
  -9223372036854775808 ≤ n && n ≤ 9223372036854775807

/-- The value, if it fits. -/
def checked (n : Int) : Option Int :=
  if fits n then some n else none

def mul? (m n : Int) : Option Int :=
  checked (m * n)

def add? (m n : Int) : Option Int :=
  checked (m + n)

/-- Whether the character is one of the ten decimal digits. -/
def isDigit (c : Char) : Bool :=
  '0' ≤ c && c ≤ '9'

/-- The number that the digits write, first digit first. -/
def ofDigits (ds : List Char) : Nat :=
  ds.foldl (fun n d => 10 * n + (d.toNat - '0'.toNat)) 0

/-- One or more decimal digits, and nothing else. -/
def unsigned? (cs : List Char) : Option Nat :=
  if !cs.isEmpty && cs.all isDigit then some (ofDigits cs) else none

/-- An optional sign and digits, with a value in range; no blanks. -/
def ofChars? : List Char → Option Int
  | '-' :: ds => (unsigned? ds).bind fun n => checked (-(n : Int))
  | '+' :: ds => (unsigned? ds).bind fun n => checked n
  | ds => (unsigned? ds).bind fun n => checked n

def ofText? (s : String) : Option Int :=
  ofChars? s.toList

/-- Reads an integer that blanks may surround. -/
def ofField? (s : String) : Option Int :=
  ofChars? (Text.trimChars s.toList)

/-- The decimal text: a minus sign if negative, and digits without leading zeros. -/
def toText (n : Int) : String :=
  toString n

end FlatQuery.Integer
