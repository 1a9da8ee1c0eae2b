import FlatQuery.Sql.Grammar.DataType
import FlatQuery.Sql.Grammar.Call

/-!
Expressions that start with a keyword.
-/

namespace FlatQuery.Sql.Grammar

open Reader

/-! ### Choices and queries -/

def caseBranch (l : Level) : Reader String := do
  needKeyword "WHEN"
  let condition ← l.exprText
  needKeyword "THEN"
  return "WHEN " ++ condition ++ " THEN " ++ (← l.exprText)

def caseOf (l : Level) : Reader Phrase := do
  let operand ← if ← sees "WHEN" then pure none else some <$> l.exprText
  let first ← caseBranch l
  let others ← many do if ← sees "WHEN" then some <$> caseBranch l else return none
  let otherwise ← clause ["ELSE"] l.exprText
  needKeyword "END"
  return .other (Text.joined " "
    (["CASE"] ++ operand.toList ++ first :: others ++ otherwise.toList ++ ["END"]))

def existsIn (l : Level) (lead : String) : Reader Phrase := do
  return .other (lead ++ "EXISTS (" ++ (← parenthesised l.queryText) ++ ")")

def notOf (l : Level) : Reader Phrase := do
  if ← keyword "EXISTS" then existsIn l "NOT "
  else return .other ("NOT " ++ (← l.phrase 15).text)

/-! ### Conversions -/

def castOf (l : Level) (word : String) : Reader Phrase := do
  needMark "("
  let e ← l.exprText
  needKeyword "AS"
  let type ← dataType
  let format ← clause ["FORMAT"] valueText
  needMark ")"
  return .other (word ++ "(" ++ e ++ " AS " ++ type ++ spaced format ++ ")")

def convertOf (l : Level) (word : String) : Reader Phrase := do
  needMark "("
  let e ← l.exprText
  if ← keyword "USING" then
    let charset ← nameText
    needMark ")"
    return .other (word ++ "(" ++ e ++ " USING " ++ charset ++ ")")
  needMark ","
  let type ← dataType
  let charset ← clause ["CHARACTER", "SET"] nameText
  needMark ")"
  return .other (word ++ "(" ++ e ++ ", " ++ type ++ spaced charset ++ ")")

/-! ### Dates and times -/

def dateParts : List String :=
  ["YEAR", "YEARS", "MONTH", "MONTHS", "WEEK", "WEEKS", "DAY", "DAYS", "DAYOFWEEK", "DAYOFYEAR",
    "DATE", "DATETIME", "HOUR", "HOURS", "MINUTE", "MINUTES", "SECOND", "SECONDS", "CENTURY",
    "DECADE", "DOW", "DOY", "EPOCH", "ISODOW", "ISOYEAR", "ISOWEEK", "JULIAN", "MICROSECOND",
    "MICROSECONDS", "MILLENIUM", "MILLENNIUM", "MILLISECOND", "MILLISECONDS", "NANOSECOND",
    "NANOSECONDS", "QUARTER", "TIME", "TIMEZONE", "TIMEZONE_ABBR", "TIMEZONE_HOUR",
    "TIMEZONE_MINUTE", "TIMEZONE_REGION", "NODATE"]

/-- A part of a date or time; any name will do. -/
def datePart : Reader String := do
  match ← oneOf dateParts with
  | some part => return part
  | none => identText

def extractOf (l : Level) : Reader Phrase := do
  needMark "("
  let part ← datePart
  let link ←
    if ← keyword "FROM" then pure " FROM "
    else if ← mark "," then pure ", "
    else unexpected
  let e ← l.exprText
  needMark ")"
  return .other ("EXTRACT(" ++ part ++ link ++ e ++ ")")

/-- What INTERVAL starts; `operand` reads an expression without operators. -/
def intervalOf (operand : Reader Phrase) : Reader Phrase := do
  let e ← operand
  let part ← oneOf dateParts
  let size ← commaSizes
  if part = some "SECOND" then
    return .other ("INTERVAL " ++ e.text ++ " SECOND" ++ size)
  match ← after ["TO"] datePart with
  | none => return .other ("INTERVAL " ++ e.text ++ spaced part ++ size)
  | some last =>
    let lastSize ← if last = "SECOND" then commaSizes else pure ""
    return .other ("INTERVAL " ++ e.text ++ spaced part ++ size ++ " TO " ++ last ++ lastSize)
where
  /-- Sizes between parentheses, if they follow. -/
  commaSizes : Reader String := do
    if ← seesMark "(" then return " " ++ (← listText digits)
    else return ""

/-! ### Texts and numbers -/

def roundOf (l : Level) (word : String) : Reader Phrase := do
  needMark "("
  let e ← l.exprText
  let detail ←
    if ← keyword "TO" then pure (" TO " ++ (← datePart))
    else if ← mark "," then
      match ← value with
      | .number digits long => pure (", " ++ (Phrase.number digits long).text)
      | _ => unexpected
    else pure ""
  needMark ")"
  return .other (word ++ "(" ++ e ++ detail ++ ")")

/-- What POSITION starts: its own form or a call. -/
def positionOf (l : Level) (id : Ident) : Reader Phrase := do
  match ← attempt ownForm with
  | some e => return e
  | none => call l [id]
where
  /-- A part and, after IN, the text to find it in. -/
  ownForm : Reader Phrase := do
    needMark "("
    let part ← l.phrase 20
    needKeyword "IN"
    let e ← l.exprText
    needMark ")"
    return .other ("POSITION(" ++ part.text ++ " IN " ++ e ++ ")")

def substringOf (l : Level) : Reader Phrase := do
  needMark "("
  let e ← l.exprText
  let listed ← mark ","
  let start ← if listed then some <$> l.exprText else after ["FROM"] l.exprText
  let length ←
    if ← keyword "FOR" then some <$> l.exprText
    else if ← mark "," then some <$> l.exprText
    else pure none
  needMark ")"
  let startLink := if listed then ", " else " FROM "
  let lengthLink := if listed then ", " else " FOR "
  return .other ("SUBSTRING(" ++ e ++ start.elim "" (startLink ++ ·) ++
    length.elim "" (lengthLink ++ ·) ++ ")")

def overlayOf (l : Level) : Reader Phrase := do
  needMark "("
  let e ← l.exprText
  needKeyword "PLACING"
  let part ← l.exprText
  needKeyword "FROM"
  let start ← l.exprText
  let length ← clause ["FOR"] l.exprText
  needMark ")"
  return .other ("OVERLAY(" ++ e ++ " PLACING " ++ part ++ " FROM " ++ start ++ spaced length ++
    ")")

def trimOf (l : Level) : Reader Phrase := do
  needMark "("
  let side ← oneOf ["BOTH", "LEADING", "TRAILING"]
  let e ← l.exprText
  let tail ←
    match ← clause ["FROM"] l.exprText with
    | some source => pure (" " ++ source)
    | none => if ← mark "," then pure (", " ++ (← l.exprsText)) else pure ""
  needMark ")"
  return .other ("TRIM(" ++ side.elim "" (· ++ " ") ++ e ++ tail ++ ")")

/-- What MATCH starts: a search for a text in columns. -/
def matchOf : Reader Phrase := do
  let columns ← namesText
  needKeyword "AGAINST"
  let sought ← parenthesised do
    let text ← valueText
    return text ++ spaced (← oneRunOf
      [["IN", "NATURAL", "LANGUAGE", "MODE", "WITH", "QUERY", "EXPANSION"],
        ["IN", "NATURAL", "LANGUAGE", "MODE"],
        ["IN", "BOOLEAN", "MODE"],
        ["WITH", "QUERY", "EXPANSION"]])
  return .other ("MATCH " ++ columns ++ " AGAINST (" ++ sought ++ ")")

/-! ### Collections -/

/-- The elements of an array; its bracket is already open. -/
def arrayOf (l : Level) (lead : String) : Reader Phrase := do
  let elements ← if ← seesMark "]" then pure "" else l.exprsText
  needMark "]"
  return .other (lead ++ "[" ++ elements ++ "]")

def arrayQuery (l : Level) (id : Ident) : Reader Phrase := do
  return .call [id] (.query (← parenthesised l.queryText)) {}

def structField (l : Level) : Reader String := do
  let e ← l.exprText
  return e ++ spaced (← clause ["AS"] identText)

def structOf (l : Level) : Reader Phrase := do
  return .other ("STRUCT" ++ (← listText (structField l)))

/-- The fields of a record between braces; its brace is already open. -/
def recordOf (l : Level) : Reader Phrase := do
  if ← mark "\x7d" then return .other "\x7b\x7d"
  let fields ← commaList field
  needMark "\x7d"
  return .other ("\x7b" ++ commas fields ++ "\x7d")
where
  /-- A name and the value under it. -/
  field : Reader String := do
    let id ← ident
    needMark ":"
    return id.text ++ ": " ++ (← l.exprText)

def mapField (l : Level) : Reader String := do
  let key ← l.exprText
  needMark ":"
  return key ++ ": " ++ (← l.exprText)

/-- What MAP starts: keys and values between braces. -/
def mapOf (l : Level) : Reader Phrase := do
  needMark "\x7b"
  let fields ← if ← seesMark "\x7d" then pure [] else commaList (mapField l)
  needMark "\x7d"
  return .other ("MAP \x7b" ++ commas fields ++ "\x7d")

/-- What an opening brace starts: a call after the word FN, or a record. -/
def inBraces (l : Level) : Reader Phrase := do
  match ← attempt bracedCall with
  | some (.call name args details) =>
    needMark "\x7d"
    return .call name args { details with braced := true }
  | _ => recordOf l
where
  /-- A call after the word FN. -/
  bracedCall : Reader Phrase := do
    needKeyword "FN"
    call l (← name)

/-! ### Keywords -/

/-- What the name of a moment starts: a call, with or without arguments. -/
def momentOf (l : Level) (id : Ident) : Reader Phrase := do
  if ← mark "(" then return .call [id] (← argumentList l) {}
  else return .call [id] .absent {}

/-- The reader for what a keyword starts, if it starts an expression of its own.  It runs after the
keyword; `ahead` is the token that follows. -/
def special? (l : Level) (operand : Reader Phrase) (id : Ident) (ahead : Option Token)
    (word : String) : Option (Reader Phrase) :=
  let before (mark : String) := ahead == some (.symbol mark)
  match word with
  | "TRUE" => some (return .constant "true")
  | "FALSE" => some (return .constant "false")
  | "NULL" => some (return .constant "NULL")
  | "CURRENT_CATALOG" | "CURRENT_USER" | "SESSION_USER" | "USER" =>
    some (return .call [id] .absent {})
  | "CURRENT_TIMESTAMP" | "CURRENT_TIME" | "CURRENT_DATE" | "LOCALTIME" | "LOCALTIMESTAMP" =>
    some (momentOf l id)
  | "CASE" => some (caseOf l)
  | "CONVERT" | "TRY_CONVERT" => some (convertOf l word)
  | "CAST" | "TRY_CAST" | "SAFE_CAST" => some (castOf l word)
  | "EXISTS" => some (existsIn l "")
  | "EXTRACT" => some (extractOf l)
  | "CEIL" | "FLOOR" => some (roundOf l word)
  | "POSITION" => if before "(" then some (positionOf l id) else none
  | "SUBSTRING" => some (substringOf l)
  | "OVERLAY" => some (overlayOf l)
  | "TRIM" => some (trimOf l)
  | "INTERVAL" => some (intervalOf operand)
  | "ARRAY" =>
    if before "[" then some (do needMark "["; arrayOf l "ARRAY")
    else if before "(" then some (arrayQuery l id)
    else none
  | "MAP" => if before "\x7b" then some (mapOf l) else none
  | "MATCH" => some matchOf
  | "NOT" => some (notOf l)
  | "PRIOR" =>
    if l.allowsPrior then some (do return .other ("PRIOR " ++ (← l.phrase 30).text)) else none
  | "STRUCT" => some (structOf l)
  | _ => none

/-- The keywords that cannot be names where what they start cannot be read. -/
def neverNames : List String :=
  ["EXISTS", "INTERVAL", "STRUCT", "TRIM"]

end FlatQuery.Sql.Grammar
