import FlatQuery.Sql.Grammar.Level

/-!
Data types, as they are written out.
-/

namespace FlatQuery.Sql.Grammar

open Reader

/-- What may follow the name of a data type. -/
inductive TypeShape where
  | plain
  /-- A length. -/
  | sized
  /-- A length, and then UNSIGNED. -/
  | integral
  /-- A precision and a scale. -/
  | exact
  /-- A length in characters or octets. -/
  | text
  /-- A precision, and whether there is a time zone. -/
  | timed
  deriving DecidableEq, Repr, Inhabited

/-- The data types of one word and what may follow each. -/
def typeShapes : List (TypeShape × List String) :=
  [(.plain, ["BOOLEAN", "BOOL", "REAL", "FLOAT4", "FLOAT8", "FLOAT32", "FLOAT64", "UUID", "DATE",
      "DATE32", "JSON", "JSONB", "REGCLASS", "TEXT", "TINYTEXT", "MEDIUMTEXT", "LONGTEXT",
      "TINYBLOB", "MEDIUMBLOB", "LONGBLOB", "BYTEA", "INT16", "INT32", "INT64", "INT128", "INT256",
      "UINT8", "UINT16", "UINT32", "UINT64", "TIMESTAMP_NTZ"]),
    (.sized, ["FLOAT", "BINARY", "VARBINARY", "CLOB", "BLOB", "BYTES", "STRING", "DATETIME",
      "BIT"]),
    (.integral, ["TINYINT", "SMALLINT", "MEDIUMINT", "INT", "INT2", "INT4", "INT8", "INTEGER",
      "BIGINT"]),
    (.exact, ["NUMERIC", "DECIMAL", "DEC", "DOUBLE", "BIGNUMERIC", "BIGDECIMAL"]),
    (.text, ["VARCHAR", "NVARCHAR", "CHAR", "CHARACTER"]),
    (.timed, ["TIME", "TIMESTAMP", "TIMESTAMPTZ"])]

/-- What may follow a data type of one word. -/
def typeShape? (keyword : String) : Option TypeShape :=
  (typeShapes.find? (·.2.contains keyword)).map (·.1)

def sizeText : Reader String := do
  if ← mark "(" then
    let n ← digits
    needMark ")"
    return "(" ++ n ++ ")"
  else return ""

/-- A precision and a scale between parentheses, if they follow. -/
def precisionText : Reader String := do
  if ← mark "(" then
    let ns ← commaList digits
    needMark ")"
    if ns.length ≤ 2 then return "(" ++ Text.joined "," ns ++ ")" else unexpected
  else return ""

/-- A length and its unit between parentheses, if they follow. -/
def lengthText : Reader String := do
  if ← mark "(" then
    let n ← if ← keyword "MAX" then pure "MAX" else digits
    let unit ← oneOf ["CHARACTERS", "OCTETS"]
    needMark ")"
    return "(" ++ n ++ spaced unit ++ ")"
  else return ""

def afterType (word : String) : TypeShape → Reader String
  | .plain => return word
  | .sized => return word ++ (← sizeText)
  | .integral => do
    let size ← sizeText
    if ← keyword "UNSIGNED" then return word ++ size ++ " UNSIGNED" else return word ++ size
  | .exact => do
    if word = "DOUBLE" then
      if ← keyword "PRECISION" then return "DOUBLE PRECISION"
    return word ++ (← precisionText)
  | .text => do
    if word.startsWith "CHAR" then
      if ← keyword "VARYING" then return word ++ " VARYING" ++ (← lengthText)
      if ← keywords ["LARGE", "OBJECT"] then return word ++ " LARGE OBJECT" ++ (← sizeText)
    return word ++ (← lengthText)
  | .timed => do
    let size ← sizeText
    if word = "TIMESTAMPTZ" then return word ++ size
    if ← keywords ["WITH", "TIME", "ZONE"] then return word ++ size ++ " WITH TIME ZONE"
    if ← keywords ["WITHOUT", "TIME", "ZONE"] then return word ++ size ++ " WITHOUT TIME ZONE"
    return word ++ size

def arrayMark : Reader (Option String) := do
  if ← mark "[" then
    if ← mark "]" then return some "[]"
    let n ← digits
    needMark "]"
    return some ("[" ++ n ++ "]")
  else return none

/-- A data type that is known by its first word. -/
def knownType : Reader String := do
  match (← next).keyword? with
  | none => unexpected
  | some word =>
    match typeShape? word with
    | none => unexpected
    | some shape =>
      let text ← afterType word shape
      return text ++ String.join (← many arrayMark)

/-- A data type of any other name, with what is said between parentheses. -/
def customType : Reader String := do
  let text ← nameText
  if ← mark "(" then
    let modifiers ← commaList valueOrWord
    needMark ")"
    return text ++ "(" ++ commas modifiers ++ ")"
  else return text
where
  /-- A word, a number or a string. -/
  valueOrWord : Reader String := do
    match ← next with
    | .word id => return id.text
    | .number digits _ => return digits
    | .string s => return s
    | _ => unexpected

def dataType : Reader String := do
  match ((← peek).bind (·.keyword?)).bind typeShape? with
  | some _ => knownType
  | none => customType

end FlatQuery.Sql.Grammar
