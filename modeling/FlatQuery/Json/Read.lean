import FlatQuery.Json.Value

/-!
Reading a JSON document.  The grammar is the strict one: four blank characters, no leading zeros, no
control characters in strings, and nothing after the value but blanks.  Half of a surrogate pair is no
character, but it does not make a document malformed: a string or the name of a field that holds one
just cannot be decoded.
-/

namespace FlatQuery.Json

/-! ### Tokens -/

def isSpace (c : Char) : Bool :=
  c = ' ' || c = '\n' || c = '\t' || c = '\r'

/-- The input without its leading blanks. -/
def skipSpace (cs : List Char) : List Char :=
  cs.dropWhile isSpace

def literal? : List Char → List Char → Option (List Char)
  | [], rest => some rest
  | l :: ls, c :: cs => if l = c then literal? ls cs else none
  | _ :: _, [] => none

def hexValue? (c : Char) : Option Nat :=
  if '0' ≤ c && c ≤ '9' then some (c.toNat - '0'.toNat)
  else if 'a' ≤ c && c ≤ 'f' then some (c.toNat - 'a'.toNat + 10)
  else if 'A' ≤ c && c ≤ 'F' then some (c.toNat - 'A'.toNat + 10)
  else none

/-- Four hexadecimal digits. -/
def hex4? : List Char → Option (Nat × List Char)
  | a :: b :: c :: d :: rest => do
    let a ← hexValue? a
    let b ← hexValue? b
    let c ← hexValue? c
    let d ← hexValue? d
    some (((a * 16 + b) * 16 + c) * 16 + d, rest)
  | _ => none

/-- The second half of a surrogate pair. -/
def lowHalf? (cs : List Char) : Option (Nat × List Char) := do
  let rest ← literal? ['\\', 'u'] cs
  let (low, rest) ← hex4? rest
  if 0xDC00 ≤ low && low ≤ 0xDFFF then some (low, rest) else none

/-- The character that a `\u` escape writes, given what follows the letter; `none` stands for half of a
surrogate pair. -/
def unicodeEscape? (cs : List Char) : Option (Option Char × List Char) := do
  let (high, rest) ← hex4? cs
  if 0xDC00 ≤ high && high ≤ 0xDFFF then some (none, rest)
  else if 0xD800 ≤ high && high ≤ 0xDBFF then
    match lowHalf? rest with
    | some (low, rest) =>
      some (some (Char.ofNat (0x10000 + (high - 0xD800) * 0x400 + (low - 0xDC00))), rest)
    | none => some (none, rest)
  else some (some (Char.ofNat high), rest)

/-- The character that an escape writes, given what follows the backslash. -/
def escape? : List Char → Option (Option Char × List Char)
  | '"' :: rest => some ('"', rest)
  | '\\' :: rest => some ('\\', rest)
  | '/' :: rest => some ('/', rest)
  | 'b' :: rest => some ('\x08', rest)
  | 'f' :: rest => some ('\x0c', rest)
  | 'n' :: rest => some ('\n', rest)
  | 'r' :: rest => some ('\r', rest)
  | 't' :: rest => some ('\t', rest)
  | 'u' :: rest => unicodeEscape? rest
  | _ => none

/-- The characters up to the closing quote, if they can be decoded.  The fuel bounds their number. -/
def stringBody? : Nat → List Char → Option (Option (List Char) × List Char)
  | 0, _ => none
  | _ + 1, [] => none
  | fuel + 1, c :: rest =>
    if c = '"' then some (some [], rest)
    else if c = '\\' then do
      let (d, rest) ← escape? rest
      let (ds, rest) ← stringBody? fuel rest
      some (d.bind fun d => ds.map (d :: ·), rest)
    else if c.toNat < 0x20 then none
    else do
      let (ds, rest) ← stringBody? fuel rest
      some (ds.map (c :: ·), rest)

def isDigit (c : Char) : Bool :=
  '0' ≤ c && c ≤ '9'

def digits? (cs : List Char) : Option (List Char × List Char) :=
  match cs.span isDigit with
  | ([], _) => none
  | (ds, rest) => some (ds, rest)

/-- The digits before the point: a zero alone, or digits that do not start with zero. -/
def whole? : List Char → Option (List Char × List Char)
  | '0' :: rest => if (rest.head?.map isDigit).getD false then none else some (['0'], rest)
  | cs => digits? cs

def fraction? : List Char → Option (List Char × List Char)
  | '.' :: rest => (digits? rest).map fun (ds, rest) => ('.' :: ds, rest)
  | cs => some ([], cs)

def exponentSign : List Char → List Char × List Char
  | '+' :: rest => (['+'], rest)
  | '-' :: rest => (['-'], rest)
  | cs => ([], cs)

def exponent? : List Char → Option (List Char × List Char)
  | [] => some ([], [])
  | c :: rest =>
    if c = 'e' || c = 'E' then
      let (sign, rest) := exponentSign rest
      (digits? rest).map fun (ds, rest) => (c :: sign ++ ds, rest)
    else some ([], c :: rest)

def digitsValue (ds : List Char) : Nat :=
  ds.foldl (fun n d => 10 * n + (d.toNat - '0'.toNat)) 0

def number? (cs : List Char) : Option (Json × List Char) := do
  let negative := cs.head? = some '-'
  let (whole, rest) ← whole? (if negative then cs.tail else cs)
  let (fraction, rest) ← fraction? rest
  let (exponent, rest) ← exponent? rest
  let sign := if negative then ['-'] else []
  if fraction.isEmpty && exponent.isEmpty && !(negative && whole == ['0']) then
    let n : Int := digitsValue whole
    some (integer (if negative then -n else n), rest)
  else some (decimal (String.ofList (sign ++ whole ++ fraction ++ exponent)), rest)

/-! ### Values -/

/-- What stands for a string that cannot be decoded, and for an object with such a name in it: a number
without digits, which no document holds. -/
def undecoded : Json :=
  decimal ""

mutual

/-- A value, leading blanks skipped. -/
def value? : Nat → List Char → Option (Json × List Char)
  | 0, _ => none
  | fuel + 1, cs =>
    match skipSpace cs with
    | [] => none
    | c :: rest =>
      if c = '"' then do
        let (s, rest) ← stringBody? (rest.length + 1) rest
        some ((s.map (string ∘ String.ofList)).getD undecoded, rest)
      else if c = '[' then
        match skipSpace rest with
        | ']' :: rest => some (array [], rest)
        | rest => do
          let (items, rest) ← items? fuel rest
          some (array items, rest)
      else if c = '{' then
        match skipSpace rest with
        | '}' :: rest => some (object [], rest)
        | rest => do
          let (fields, rest) ← fields? fuel rest
          some ((fields.map object).getD undecoded, rest)
      else if c = 'n' then (literal? "ull".toList rest).map (null, ·)
      else if c = 't' then (literal? "rue".toList rest).map (bool true, ·)
      else if c = 'f' then (literal? "alse".toList rest).map (bool false, ·)
      else number? (c :: rest)

def items? : Nat → List Char → Option (List Json × List Char)
  | 0, _ => none
  | fuel + 1, cs => do
    let (v, rest) ← value? fuel cs
    match skipSpace rest with
    | ',' :: rest => do
      let (vs, rest) ← items? fuel rest
      some (v :: vs, rest)
    | ']' :: rest => some ([v], rest)
    | _ => none

/-- One or more fields and the closing brace; the fields, if all their names can be decoded. -/
def fields? : Nat → List Char → Option (Option (List (String × Json)) × List Char)
  | 0, _ => none
  | fuel + 1, cs =>
    match skipSpace cs with
    | '"' :: rest => do
      let (k, rest) ← stringBody? (rest.length + 1) rest
      match skipSpace rest with
      | ':' :: rest => do
        let (v, rest) ← value? fuel rest
        match skipSpace rest with
        | ',' :: rest => do
          let (more, rest) ← fields? fuel rest
          some (k.bind fun k => more.map ((String.ofList k, v) :: ·), rest)
        | '}' :: rest => some (k.map fun k => [(String.ofList k, v)], rest)
        | _ => none
      | _ => none
    | _ => none

end

/-- Reads a document: one value, and nothing else but blanks. -/
def parse? (s : String) : Option Json := do
  let cs := s.toList
  let (v, rest) ← value? (cs.length + 1) cs
  if (skipSpace rest).isEmpty then some v else none

end FlatQuery.Json
