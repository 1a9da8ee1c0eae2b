import FlatQuery.Sql.Grammar.DataType
import FlatQuery.Sql.Grammar.Call

/-!
Sources of rows: tables, subqueries and functions, and the joins between them.
-/

namespace FlatQuery.Sql.Grammar

open Reader

/-! ### Aliases -/

/-- The keywords that start what may follow an item of a SELECT list. -/
def afterItem : List String :=
  ["WITH", "EXPLAIN", "ANALYZE", "SELECT", "WHERE", "GROUP", "SORT", "HAVING", "ORDER", "TOP",
    "LATERAL", "VIEW", "LIMIT", "OFFSET", "FETCH", "UNION", "EXCEPT", "EXCLUDE", "INTERSECT",
    "MINUS", "CLUSTER", "DISTRIBUTE", "RETURNING", "FROM", "INTO", "END"]

/-- The keywords that start what may follow a source. -/
def afterSource : List String :=
  ["WITH", "EXPLAIN", "ANALYZE", "SELECT", "WHERE", "GROUP", "SORT", "HAVING", "ORDER", "PIVOT",
    "UNPIVOT", "TOP", "LATERAL", "VIEW", "LIMIT", "OFFSET", "FETCH", "UNION", "EXCEPT",
    "INTERSECT", "MINUS", "ON", "JOIN", "INNER", "CROSS", "FULL", "LEFT", "RIGHT", "NATURAL",
    "USING", "CLUSTER", "DISTRIBUTE", "GLOBAL", "ANTI", "SEMI", "RETURNING", "ASOF",
    "MATCH_CONDITION", "OUTER", "SET", "QUALIFY", "WINDOW", "END", "FOR", "PARTITION", "PREWHERE",
    "SETTINGS", "FORMAT", "START", "CONNECT", "MATCH_RECOGNIZE", "SAMPLE", "TABLESAMPLE", "FROM",
    "OPEN"]

/-- An alias, if one follows.  Without AS it is none of given keywords. -/
def aliasName? (reserved : List String) : Reader (Option Ident) := do
  if ← keyword "AS" then return some (← ident)
  match ← peek with
  | some (.word id) =>
    if ((Token.word id).keyword?).any reserved.contains then return none
    let _ ← next
    return some id
  | some (.string s) =>
    let _ ← next
    return some { value := s, quote := some '\'' }
  | _ => return none

/-- A column of an alias, with its type if one follows. -/
def aliasColumn : Reader String := do
  let id ← ident
  return id.text ++ spaced (← attempt dataType)

/-- The alias of a source, with its columns if they follow. -/
def sourceAlias : Reader (Option String) := do
  match ← aliasName? afterSource with
  | none => return none
  | some id =>
    if ← seesMark "(" then
      return some (id.text ++ " " ++ (← listText aliasColumn))
    else return some id.text

/-! ### Parts of sources -/

def valuesText (l : Level) : Reader String := do
  let rows ← commaList do
    let isNamed ← keyword "ROW"
    return (isNamed, ← parenthesised l.exprsText)
  let lead := if rows.any (·.1) then "ROW(" else "("
  return "VALUES " ++ commas (rows.map fun r => lead ++ r.2 ++ ")")

/-- What part of a table is taken, if it is said. -/
def sample (l : Level) : Reader (Option String) := do
  match ← oneOf ["TABLESAMPLE", "SAMPLE"] with
  | none => return none
  | some word =>
    let method ← oneOf ["BERNOULLI", "ROW", "SYSTEM", "BLOCK"]
    let size ← if ← seesMark "(" then ("(" ++ · ++ ")") <$> parenthesised amount else amount
    let seed ← clause ["REPEATABLE"] seedText
    let seed ← match seed with
      | some s => pure (some s)
      | none => clause ["SEED"] seedText
    let offset ← clause ["OFFSET"] l.exprText
    return some (word ++ spaced method ++ " " ++ size ++ spaced seed ++ spaced offset)
where
  /-- A number and its unit. -/
  amount : Reader String := do
    let e ← l.exprText
    return e ++ spaced (← oneOf ["ROWS", "PERCENT"])
  /-- A number between parentheses. -/
  seedText : Reader String := do
    return "(" ++ (← parenthesised valueText) ++ ")"

/-- The arguments of a table, as they are written out; their parenthesis is already open. -/
def tableArguments (l : Level) : Reader String := do
  if ← mark ")" then return "()"
  let args ← commaList (argument l)
  needMark ")"
  return "(" ++ commas (args.map (·.text)) ++ ")"

/-! ### Rearranged sources -/

/-- An expression, with a name for it if one follows. -/
def namedExpr (l : Level) : Reader String := do
  let e ← l.exprText
  return e ++ spaced (← clause ["AS"] identText)

/-- A call of an aggregate, with a name for it if one follows. -/
def namedCall (l : Level) : Reader String := do
  match ← next with
  | .word id =>
    let e ← call l [{ value := id.value }]
    return e.text ++ spaced (← clause ["AS"] identText)
  | _ => unexpected

/-- The values that become columns. -/
def pivotValues (l : Level) : Reader String := do
  if ← keyword "ANY" then return "ANY" ++ spaced (← after ["ORDER", "BY"] l.orderByText)
  else if ← seesAny ["SELECT", "WITH"] then l.queryText
  else commas <$> commaList (namedExpr l)

def pivot (l : Level) : Reader String :=
  parenthesised do
    let calls ← commaList (namedCall l)
    needKeyword "FOR"
    let column ← name
    needKeyword "IN"
    let values ← parenthesised (pivotValues l)
    let filler ← after ["DEFAULT", "ON", "NULL"] (parenthesised l.exprText)
    return commas calls ++ " FOR " ++ dotted column ++ " IN (" ++ values ++ ")" ++
      filler.elim "" (" DEFAULT ON NULL (" ++ · ++ ")")

def unpivot : Reader String :=
  parenthesised do
    let value ← identText
    needKeyword "FOR"
    let column ← identText
    needKeyword "IN"
    return value ++ " FOR " ++ column ++ " IN " ++ (← namesText)

/-- A source and what rearranges its rows and columns, at most `fuel` times. -/
def rearranged (l : Level) : Nat → Factor → Reader Factor
  | 0, f => return f
  | fuel + 1, f => do
    let words ←
      if ← keyword "PIVOT" then pure ("PIVOT(" ++ (← pivot l) ++ ")")
      else if ← keyword "UNPIVOT" then pure ("UNPIVOT(" ++ (← unpivot) ++ ")")
      else return f
    rearranged l fuel { head := .other (f.text ++ " " ++ words) "", aliasName := ← sourceAlias }

/-! ### Tables -/

def table (l : Level) : Reader Factor := do
  let id ← name
  let partitions ← clause ["PARTITION"] namesText
  let args ← if ← mark "(" then some <$> tableArguments l else pure none
  let withOrdinality ← keywords ["WITH", "ORDINALITY"]
  let aliasName ← sourceAlias
  let hints ← if ← seesBefore "WITH" then clause ["WITH"] (listText l.exprText)
    else pure none
  let sampleAfter ← sample l
  let details := { partitions, args, withOrdinality, hints, sampleAfter }
  rearranged l (← upcoming).length { head := .table id details, aliasName }

/-! ### Other sources -/

/-- A subquery; its parenthesis is already open. -/
def derived (l : Level) (lead : String) : Reader Factor := do
  let text ← l.queryText
  needMark ")"
  return { head := .other (lead ++ "(" ++ text ++ ")") "", aliasName := ← sourceAlias }

def unnest (l : Level) : Reader Factor := do
  let args ← parenthesised l.exprsText
  let ordinality ← keywords ["WITH", "ORDINALITY"]
  let aliasName ← sourceAlias
  let offset ← after ["WITH", "OFFSET"] (aliasName? afterItem)
  let details := if ordinality then " WITH ORDINALITY" else ""
  let tail := offset.elim "" fun id => " WITH OFFSET" ++ id.elim "" (" AS " ++ ·.text)
  return { head := .other ("UNNEST(" ++ args ++ ")" ++ details) tail, aliasName }

def lateral (l : Level) : Reader Factor := do
  if ← mark "(" then derived l "LATERAL "
  else
    let id ← nameText
    needMark "("
    let args ← tableArguments l
    return { head := .other ("LATERAL " ++ id ++ args) "", aliasName := ← sourceAlias }

/-! ### Documents as tables -/

/-- What stands for a value that is missing or wrong, and the word that says which, if it
follows. -/
def fallback : Reader (Option (String × String)) := do
  match ← oneOf ["NULL", "ERROR", "DEFAULT"] with
  | none => return none
  | some word =>
    let words ← if word = "DEFAULT" then (word ++ " " ++ ·) <$> valueText else pure word
    needKeyword "ON"
    return some (← needOneOf ["EMPTY", "ERROR"], words)

/-- A column of JSON_TABLE; columns are nested less than `fuel` times. -/
def documentColumn : Nat → Reader String
  | 0 => unexpected
  | fuel + 1 => do
    if ← keyword "NESTED" then
      let _ ← keyword "PATH"
      let path ← valueText
      needKeyword "COLUMNS"
      return "NESTED PATH " ++ path ++ " COLUMNS " ++ (← listText (documentColumn fuel))
    let id ← identText
    if ← keyword "FOR" then
      needKeyword "ORDINALITY"
      return id ++ " FOR ORDINALITY"
    let type ← dataType
    let tested := if ← keyword "EXISTS" then " EXISTS" else ""
    needKeyword "PATH"
    let path ← valueText
    -- of several fallbacks for one event the last counts
    let fallbacks := (← many fallback).reverse
    let shown event := (fallbacks.lookup event).elim "" fun words => " " ++ words ++ " ON " ++ event
    return id ++ " " ++ type ++ tested ++ " PATH " ++ path ++ shown "EMPTY" ++ shown "ERROR"

/-- What JSON_TABLE starts. -/
def documentTable (l : Level) : Reader Factor := do
  let text ← parenthesised do
    let e ← l.exprText
    needMark ","
    let path ← valueText
    needKeyword "COLUMNS"
    return e ++ ", " ++ path ++ " COLUMNS" ++ (← listText (documentColumn (← upcoming).length))
  return { head := .other ("JSON_TABLE(" ++ text ++ ")") "", aliasName := ← sourceAlias }

/-- A column of OPENJSON. -/
def openColumn : Reader String := do
  let id ← identText
  let type ← dataType
  let path ←
    match ← peek with
    | some (.string s) =>
      let _ ← next
      pure (" " ++ quoted '\'' s)
    | _ => pure ""
  return id ++ " " ++ type ++ path ++ spaced (← clause ["AS"] do needKeyword "JSON"; return "JSON")

/-- What OPENJSON starts. -/
def openTable (l : Level) : Reader Factor := do
  let args ← parenthesised do
    let e ← l.exprText
    let path ← if ← mark "," then (", " ++ ·) <$> valueText else pure ""
    return e ++ path
  let columns ← clause ["WITH"] (listText openColumn)
  let text := "OPENJSON(" ++ args ++ ")" ++ spaced columns
  return { head := .other text "", aliasName := ← sourceAlias }

/-! ### Joins -/

/-- The runs of keywords that start a join on a condition, and how each is written out. -/
def joinRuns : List (List String × String) :=
  [(["JOIN"], "JOIN"),
    (["INNER", "JOIN"], "INNER JOIN"),
    (["LEFT", "JOIN"], "LEFT JOIN"),
    (["LEFT", "OUTER", "JOIN"], "LEFT OUTER JOIN"),
    (["LEFT", "SEMI", "JOIN"], "LEFT SEMI JOIN"),
    (["LEFT", "ANTI", "JOIN"], "LEFT ANTI JOIN"),
    (["RIGHT", "JOIN"], "RIGHT JOIN"),
    (["RIGHT", "OUTER", "JOIN"], "RIGHT OUTER JOIN"),
    (["RIGHT", "SEMI", "JOIN"], "RIGHT SEMI JOIN"),
    (["RIGHT", "ANTI", "JOIN"], "RIGHT ANTI JOIN"),
    (["SEMI", "JOIN"], "SEMI JOIN"),
    (["ANTI", "JOIN"], "ANTI JOIN"),
    (["FULL", "JOIN"], "FULL JOIN"),
    (["FULL", "OUTER", "JOIN"], "FULL JOIN")]

/-- The runs of keywords that start a join without condition. -/
def freeJoinRuns : List (List String × String) :=
  [(["CROSS", "JOIN"], "CROSS JOIN"),
    (["CROSS", "APPLY"], "CROSS APPLY"),
    (["OUTER", "APPLY"], "OUTER APPLY")]

def joinCondition (l : Level) : Reader String := do
  match ← clause ["ON"] l.exprText with
  | some text => return " " ++ text
  | none =>
    return ((← after ["USING"] (listText nameText)).map (" USING" ++ ·)).getD ""

/-- What ASOF starts: a join with the closest row. -/
def closestJoin (l : Level) : Reader String := do
  needKeyword "JOIN"
  let right ← l.factor
  needKeyword "MATCH_CONDITION"
  let closest ← parenthesised l.exprText
  return "ASOF JOIN " ++ right.text ++ " MATCH_CONDITION (" ++ closest ++ ")" ++ (← joinCondition l)

def join (l : Level) : Reader (Option String) := do
  let lead := if ← keyword "GLOBAL" then "GLOBAL " else ""
  match ← oneRunFor freeJoinRuns with
  | some words => return some (lead ++ words ++ " " ++ (← l.factor).text)
  | none =>
    if ← keyword "ASOF" then return some (lead ++ (← closestJoin l))
    let natural ← keyword "NATURAL"
    match ← oneRunFor joinRuns with
    | some words =>
      let right := (← l.factor).text
      if natural then return some (lead ++ "NATURAL " ++ words ++ " " ++ right)
      else return some (lead ++ words ++ " " ++ right ++ (← joinCondition l))
    | none => if natural then unexpected else return none

def joined (l : Level) : Reader Joined := do
  let first ← l.factor
  return { first, joins := ← many (join l) }

def sources (l : Level) : Reader (List Joined) :=
  commaList (joined l)

/-! ### Parentheses -/

/-- Joined sources between parentheses; the first is already open.  Parentheses around a single
source are dropped, and an alias after them is its alias. -/
def inner (l : Level) : Reader Factor := do
  let sources ← joined l
  needMark ")"
  let aliasName ← sourceAlias
  match sources.joins, sources.first.head with
  | [], .joined _ => return { head := .joined sources.text, aliasName }
  | [], _ =>
    if aliasName.isNone then return sources.first
    else if sources.first.aliasName.isSome then unexpected
    else return { sources.first with aliasName }
  | _, _ => return { head := .joined sources.text, aliasName }

def factor (l : Level) : Reader Factor := do
  if ← keyword "LATERAL" then lateral l
  else if ← keyword "TABLE" then
    let e ← parenthesised l.exprText
    return { head := .other ("TABLE(" ++ e ++ ")") "", aliasName := ← sourceAlias }
  else if ← mark "(" then
    match ← attempt (derived l "") with
    | some f => rearranged l (← upcoming).length f
    | none => inner l
  else if ← keyword "UNNEST" then unnest l
  else if ← seesBefore "VALUES" then
    let _ ← next
    return { head := .other ("(" ++ (← valuesText l) ++ ")") "", aliasName := ← sourceAlias }
  else if ← seesBefore "JSON_TABLE" then
    let _ ← next
    documentTable l
  else if ← seesBefore "OPENJSON" then
    let _ ← next
    openTable l
  else table l

end FlatQuery.Sql.Grammar
