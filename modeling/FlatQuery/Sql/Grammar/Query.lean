import FlatQuery.Sql.Grammar.Select

/-!
Queries: SELECTs put together by set operators, between WITH and the clauses for the whole.
-/

namespace FlatQuery.Sql.Grammar

open Reader

/-! ### Bodies -/

/-- A body without set operators. -/
def bodyOperand (l : Level) : Reader Body := do
  if ← seesAny ["SELECT", "FROM"] then return .select (← select l)
  else if ← seesMark "(" then return .other ("(" ++ (← parenthesised l.queryText) ++ ")")
  else if ← keyword "VALUES" then return .other (← valuesText l)
  else if ← keyword "TABLE" then return .other ("TABLE " ++ (← nameText))
  else unexpected

def setStrength : String → Nat
  | "INTERSECT" => 20
  | _ => 10

/-- What is said about repeated rows after a set operator. -/
def setQuantifier : Reader (Option String) :=
  oneRunOf [["DISTINCT", "BY", "NAME"], ["BY", "NAME"], ["ALL", "BY", "NAME"], ["ALL"],
    ["DISTINCT"]]

/-- Goes on with set operators that are stronger than a given strength, at most `fuel` of them. -/
def setOperators (l : Level) (least : Nat) : Nat → Body → Reader Body
  | 0, body => return body
  | fuel + 1, left => do
    let op := ((← peek).bind (·.keyword?)).filter
      ["UNION", "EXCEPT", "MINUS", "INTERSECT"].contains
    match op.filter (least < setStrength ·) with
    | none => return left
    | some op =>
      let _ ← next
      let quantifier ← setQuantifier
      let right ← l.body (setStrength op)
      setOperators l least fuel
        (.other (left.text ++ " " ++ op ++ spaced quantifier ++ " " ++ right.text))

/-- A query body up to a set operator that is no stronger than a given strength. -/
def body (l : Level) (least : Nat) : Reader Body := do
  let first ← bodyOperand l
  setOperators l least (← upcoming).length first

/-! ### Clauses -/

def namedQuery (l : Level) : Reader String := do
  let id ← ident
  let columns ← if ← seesMark "(" then (" " ++ ·) <$> namesText else pure ""
  needKeyword "AS"
  let materialized ← oneRunOf [["MATERIALIZED"], ["NOT", "MATERIALIZED"]]
  let text ← parenthesised l.queryText
  let source ← clause ["FROM"] identText
  return id.text ++ columns ++ " AS" ++ spaced materialized ++ " (" ++ text ++ ")" ++ spaced source

def namedQueries (l : Level) : Reader String := do
  let recursive := if ← keyword "RECURSIVE" then "RECURSIVE " else ""
  return recursive ++ commas (← commaList (namedQuery l))

/-- How many rows there are at most; ALL sets no limit. -/
def limitCount (l : Level) : Reader (Option String) := do
  if ← keyword "ALL" then return none else return some (← l.exprText)

structure Extent where
  limit : Option String := none
  offset : Option String := none
  deriving DecidableEq, Repr, Inhabited

/-- Reads on about the extent.  After LIMIT and a comma, the first number is the offset. -/
def extentAfter (l : Level) (e : Extent) : Reader Extent := do
  let limit ← match e.limit with
    | some limit => pure (some limit)
    | none => if ← keyword "LIMIT" then limitCount l else pure none
  let offset ← match e.offset with
    | some offset => pure (some offset)
    | none => clause ["OFFSET"] do return (← l.exprText) ++ spaced (← oneOf ["ROW", "ROWS"])
  match limit, offset with
  | some first, none =>
    if ← mark "," then
      let limit ← l.exprText
      return { limit := some limit, offset := some ("OFFSET " ++ first) }
    else return { limit, offset }
  | _, _ => return { limit, offset }

def fetch : Reader String := do
  let _ ← oneOf ["FIRST", "NEXT"]
  let count ←
    if (← oneOf ["ROW", "ROWS"]).isSome then pure ""
    else
      let n ← valueText
      let percent := if ← keyword "PERCENT" then " PERCENT" else ""
      let _ ← oneOf ["ROW", "ROWS"]
      pure (" " ++ n ++ percent)
  match ← oneRunOf [["ONLY"], ["WITH", "TIES"]] with
  | some last => return "FIRST" ++ count ++ " ROWS " ++ last
  | none => unexpected

def lock : Reader String := do
  let kind ← needOneOf ["UPDATE", "SHARE"]
  let table ← clause ["OF"] nameText
  let wait ← oneRunOf [["NOWAIT"], ["SKIP", "LOCKED"]]
  return kind ++ spaced table ++ spaced wait

/-- A text between quotes and parentheses, after a word. -/
def wordOf (word : String) : Reader String := do
  match ← parenthesised next with
  | .string s => return word ++ "('" ++ s ++ "')"
  | _ => unexpected

/-- The kind of XML that the rows are given as. -/
def xmlKind : Reader String := do
  let word ← needOneOf ["RAW", "AUTO", "EXPLICIT", "PATH"]
  if ["RAW", "PATH"].contains word && (← seesMark "(") then wordOf word else return word

/-- An option, after a comma, of a clause that shapes the rows. -/
def shapeOption (runs : List (List String)) : Reader (Option String) := do
  if ← mark "," then
    if ← keyword "ROOT" then return some (← wordOf "ROOT")
    return some ((← oneRunOf runs).getD "")
  else return none

/-- The options of a clause that shapes the rows, in the order in which they are written out. -/
def shapeText (lead : String) (order : List String) (options : List String) : String :=
  commas (lead :: order.flatMap fun word => (options.filter (·.startsWith word)).getLast?.toList)

/-- What FOR starts, if it is not a lock: the form in which rows are given. -/
def shape : Reader (Option String) := do
  if ← keyword "BROWSE" then return some "FOR BROWSE"
  else if ← keyword "XML" then
    let kind ← xmlKind
    let options ← many (shapeOption [["ELEMENTS"], ["BINARY", "BASE64"], ["TYPE"]])
    return some (shapeText ("FOR XML " ++ kind) ["BINARY BASE64", "TYPE", "ROOT", "ELEMENTS"] options)
  else if ← keyword "JSON" then
    let kind ← needOneOf ["AUTO", "PATH"]
    let options ← many (shapeOption [["INCLUDE_NULL_VALUES"], ["WITHOUT_ARRAY_WRAPPER"]])
    return some (shapeText ("FOR JSON " ++ kind)
      ["ROOT", "INCLUDE_NULL_VALUES", "WITHOUT_ARRAY_WRAPPER"] options)
  else return none

/-- Locks, and a form for the rows after which nothing of the kind follows; at most `fuel`. -/
def locksAndShape : Nat → Reader (List String × Option String)
  | 0 => return ([], none)
  | fuel + 1 => do
    if ← keyword "FOR" then
      match ← shape with
      | some text => return ([], some text)
      | none =>
        let first ← lock
        let (locks, last) ← locksAndShape fuel
        return (("FOR " ++ first) :: locks, last)
    else return ([], none)

/-- A value to be put in for a column. -/
def interpolated (l : Level) : Reader String := do
  let id ← ident
  return id.text ++ spaced (← clause ["AS"] l.exprText)

def interpolation (l : Level) : Reader (Option String) :=
  after ["INTERPOLATE"] do
    if ← marks ["(", ")"] then return "INTERPOLATE ()"
    else if ← seesMark "(" then return "INTERPOLATE " ++ (← listText (interpolated l))
    else return "INTERPOLATE"

/-- ORDER BY and its keys, and INTERPOLATE. -/
def order (l : Level) : Reader (SortKeys × Option String) := do
  match ← after ["ORDER", "BY"] l.sortItems with
  | some keys => return (.items keys, ← interpolation l)
  | none => return (.items [], none)

def setting : Reader String := do
  let id ← ident
  needMark "="
  return id.text ++ " = " ++ (← valueText)

/-! ### Queries -/

def query (l : Level) : Reader QuerySentence :=
  deeper do
    let withClause ← clause ["WITH"] (namedQueries l)
    let body ← l.body 0
    let (orderBy, interpolate) ← order l
    let extent ← extentAfter l (← extentAfter l {})
    let limitBy ← clause ["BY"] l.exprsText
    let settings ← clause ["SETTINGS"] (commas <$> commaList setting)
    let fetch ← clause ["FETCH"] fetch
    let (locks, shape) ← locksAndShape (← upcoming).length
    let format ← clause ["FORMAT"] do
      if ← keyword "NULL" then return "NULL" else identText
    return {
      withClause, body, orderBy, interpolate, limit := extent.limit.map ("LIMIT " ++ ·)
      offset := extent.offset, limitBy, settings, fetch, locks, shape, format }

end FlatQuery.Sql.Grammar
