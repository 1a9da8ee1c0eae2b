import FlatQuery.Text.Blank

/-!
Moments written as date, time and offset, such as `2024-05-06T07:08:09.25Z`.  Reading is lenient
about blanks and about leading zeros, and strict about ranges.  Writing gives universal time in
whole seconds.
-/

namespace FlatQuery.Text.Moment

def isDigit (c : Char) : Bool :=
  '0' ≤ c && c ≤ '9'

/-- A number of at least one and at most `width` digits. -/
def number? (width : Nat) (cs : List Char) : Option (Nat × List Char) :=
  let ds := (cs.take width).takeWhile isDigit
  if ds.isEmpty then none
  else some (ds.foldl (fun n d => 10 * n + (d.toNat - '0'.toNat)) 0, cs.drop ds.length)

def spacedNumber? (width : Nat) (cs : List Char) : Option (Nat × List Char) :=
  number? width (cs.dropWhile isBlank)

/-- A year: four digits at most, or any number of them after a sign. -/
def year? (cs : List Char) : Option (Int × List Char) :=
  match cs.dropWhile isBlank with
  | '-' :: rest => (number? rest.length rest).map fun (n, rest) => (-(n : Int), rest)
  | '+' :: rest => (number? rest.length rest).map fun (n, rest) => ((n : Int), rest)
  | rest => (number? 4 rest).map fun (n, rest) => ((n : Int), rest)

def mark? (c : Char) (cs : List Char) : Option (List Char) :=
  match cs.dropWhile isBlank with
  | d :: rest => if d = c then some rest else none
  | [] => none

/-- The digits after the point of the seconds, if there are any. -/
def fraction? : List Char → Option (List Char)
  | '.' :: rest => (number? 9 rest).map fun (_, rest) => rest.dropWhile isDigit
  | cs => some cs

def two? : List Char → Option (Nat × List Char)
  | a :: b :: rest => if isDigit a && isDigit b then number? 2 (a :: b :: rest) else none
  | _ => none

/-- The offset from universal time, of which nothing may follow but blanks. -/
def isOffset (cs : List Char) : Bool :=
  match cs.dropWhile isBlank with
  | [] => false
  | c :: rest =>
    if c = 'Z' || c = 'z' then rest.all isBlank
    else if (String.ofList (cs.dropWhile isBlank |>.take 3)).toUpper = "UTC" then
      (rest.drop 2).all isBlank
    else if c = '+' || c = '-' || c = '−' then
      match two? rest with
      | none => false
      | some (hours, rest) =>
        match two? (rest.dropWhile fun c => c = ':' || isBlank c) with
        | none => false
        | some (minutes, rest) => minutes < 60 && hours < 24 && rest.all isBlank
    else false

def daysOf (year : Int) (month : Nat) : Nat :=
  if month = 2 then
    if year % 4 = 0 && (year % 100 != 0 || year % 400 = 0) then 29 else 28
  else if month ∈ [4, 6, 9, 11] then 30
  else 31

def isTime (cs : List Char) : Option Bool := do
  let (hour, rest) ← spacedNumber? 2 cs
  let rest ← mark? ':' rest
  let (minute, rest) ← spacedNumber? 2 rest
  let rest ← mark? ':' rest
  let (second, rest) ← spacedNumber? 2 rest
  let rest ← fraction? rest
  some (hour < 24 && minute < 60 && second ≤ 60 && isOffset rest)

/-- Whether the text writes a moment. -/
def isMoment (s : String) : Bool :=
  let parsed : Option Bool := do
    let (year, rest) ← year? s.toList
    let rest ← mark? '-' rest
    let (month, rest) ← spacedNumber? 2 rest
    let rest ← mark? '-' rest
    let (day, rest) ← spacedNumber? 2 rest
    let dated := 1 ≤ month && month ≤ 12 && 1 ≤ day && day ≤ daysOf year month &&
      -262143 ≤ year && year ≤ 262142
    match rest with
    | c :: rest =>
      if c = 'T' || c = 't' || c = ' ' then (isTime rest).map (dated && ·) else none
    | [] => none
  parsed.getD false

/-! ### Writing -/

/-- A number in decimal notation, with zeros in front up to a width. -/
def padded (width n : Nat) : String :=
  let digits := toString n
  String.ofList (List.replicate (width - digits.length) '0') ++ digits

/-- The year, month and day that is a number of days after the first of January 1970.  Years are
counted from March, in cycles of 400 years. -/
def dateAfter (days : Nat) : Nat × Nat × Nat :=
  let shifted := days + 719468
  let cycle := shifted / 146097
  let dayOfCycle := shifted % 146097
  let yearOfCycle :=
    (dayOfCycle - dayOfCycle / 1460 + dayOfCycle / 36524 - dayOfCycle / 146096) / 365
  let dayOfYear := dayOfCycle - (365 * yearOfCycle + yearOfCycle / 4 - yearOfCycle / 100)
  let month := (5 * dayOfYear + 2) / 153
  let day := dayOfYear - (153 * month + 2) / 5 + 1
  let year := yearOfCycle + 400 * cycle
  if month < 10 then (year, month + 3, day) else (year + 1, month - 9, day)

/-- The moment that is a number of seconds after the start of 1970. -/
def ofSeconds (n : Nat) : String :=
  let (year, month, day) := dateAfter (n / 86400)
  let time := n % 86400
  padded 4 year ++ "-" ++ padded 2 month ++ "-" ++ padded 2 day ++ "T" ++ padded 2 (time / 3600) ++
    ":" ++ padded 2 (time / 60 % 60) ++ ":" ++ padded 2 (time % 60) ++ "Z"

end FlatQuery.Text.Moment
