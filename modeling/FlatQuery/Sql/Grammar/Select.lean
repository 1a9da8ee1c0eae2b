import FlatQuery.Sql.Grammar.Source

/-!
SELECT: its list of items, its sources, and the clauses after them.
-/

namespace FlatQuery.Sql.Grammar

open Reader

/-! ### Items -/

def secondName : Reader String := do
  let id ← ident
  needKeyword "AS"
  return id.text ++ " AS " ++ (← identText)

def replacement (l : Level) : Reader String := do
  let e ← l.exprText
  let link := if ← keyword "AS" then " AS " else " "
  return e ++ link ++ (← identText)

/-- What is said about the columns that a star stands for. -/
def starOptions (l : Level) : Reader StarOptions := do
  let ilike ← clause ["ILIKE"] do
    match ← next with
    | .string s => return quoted '\'' s
    | _ => unexpected
  let exclude ← if ilike.isSome then pure none else clause ["EXCLUDE"] namesOrName
  let except ← clause ["EXCEPT"] do
    if ← seesMark "(" then namesText else return "(" ++ (← identText) ++ ")"
  let replace ← clause ["REPLACE"] (listText (replacement l))
  let rename ← clause ["RENAME"] do
    if ← seesMark "(" then listText secondName else secondName
  return { ilike, exclude, except, replace, rename }
where
  /-- One name, or several between parentheses. -/
  namesOrName : Reader String := do
    if ← seesMark "(" then namesText else identText

def item (l : Level) : Reader Item := do
  match ← starred l with
  | .star => return .star (← starOptions l)
  | .tableStar table => return .tableStar (dotted table) (← starOptions l)
  | .expr e =>
    if isFrom e then unexpected
    match ← aliasName? afterItem with
    | some aliasName => return .aliased e aliasName
    | none => return .expr e
where
  /-- Whether the expression is the bare word FROM. -/
  isFrom : Phrase → Bool
    | .name id => (Token.word id).isKeyword "FROM"
    | _ => false

/-! ### Before the list -/

def repeats (l : Level) : Reader Repeats := do
  let all ← keyword "ALL"
  if ← keyword "DISTINCT" then
    if all then unexpected
    if ← keyword "ON" then
      needMark "("
      let keys ← if ← seesMark ")" then pure [] else l.exprs
      needMark ")"
      return .droppedOn (keys.map (·.text))
    else return .dropped
  else return .kept

def top (l : Level) : Reader String := do
  let count ← if ← seesMark "(" then ("(" ++ · ++ ")") <$> parenthesised l.exprText else digits
  let percent := if ← keyword "PERCENT" then " PERCENT" else ""
  let ties := if ← keywords ["WITH", "TIES"] then " WITH TIES" else ""
  return count ++ percent ++ ties

/-! ### After the list -/

def target : Reader String := do
  let temporary := if (← oneOf ["TEMP", "TEMPORARY"]).isSome then "TEMPORARY " else ""
  let unlogged := if ← keyword "UNLOGGED" then "UNLOGGED " else ""
  let table := if ← keyword "TABLE" then "TABLE " else ""
  return temporary ++ unlogged ++ table ++ (← nameText)

def lateralView (l : Level) : Reader (Option String) :=
  clause ["LATERAL", "VIEW"] do
    let outer := if ← keyword "OUTER" then "OUTER " else ""
    let e ← l.exprText
    let name ← nameText
    let columns ← commaList (aliasName? ["WHERE", "GROUP", "CLUSTER", "HAVING", "LATERAL"])
    let shown := (columns.filterMap fun id => id).map (·.text)
    return outer ++ e ++ " " ++ name ++ (if shown.isEmpty then "" else " AS " ++ commas shown)

/-- Expressions between parentheses, or none. -/
def tuple (l : Level) : Reader String := do
  if ← marks ["(", ")"] then return "()" else listText l.exprText

/-- A set of CUBE or ROLLUP.  A single expression is written without parentheses. -/
def groupingSet (l : Level) : Reader String := do
  if ← marks ["(", ")"] then return "()"
  else if ← seesMark "(" then
    match ← parenthesised l.exprs with
    | [e] => return e.text
    | es => return "(" ++ commas (es.map (·.text)) ++ ")"
  else l.exprText

def groupingItem (l : Level) : Reader Phrase := do
  match ← clause ["GROUPING", "SETS"] (listText (tuple l)) with
  | some text => return .other text
  | none =>
    match ← oneOf ["CUBE", "ROLLUP"] with
    | some word =>
      return .other (word ++ " " ++ (← listText (groupingSet l)))
    | none =>
      if ← marks ["(", ")"] then return .other "()" else l.expr

def grouping (l : Level) : Reader Grouping := do
  let es ← if ← keyword "ALL" then pure none else some <$> commaList (groupingItem l)
  let modifiers ← many (clause ["WITH"] (needOneOf ["ROLLUP", "CUBE", "TOTALS"]))
  match es with
  | none => return .all modifiers
  | some es => return .exprs es modifiers

def namedWindow (l : Level) : Reader String := do
  let id ← ident
  needKeyword "AS"
  return id.text ++ " AS " ++ (← windowOrName l)

def namedWindows (l : Level) : Reader (Option String) :=
  clause ["WINDOW"] (commas <$> commaList (namedWindow l))

/-- A condition on the values of windows, if it follows. -/
def qualification (l : Level) : Reader (Option String) :=
  clause ["QUALIFY"] l.exprText

/-- START WITH and CONNECT BY, in either order. -/
def connectBy (l : Level) : Reader (Option String) := do
  if ← seesAny ["START", "CONNECT"] then
    let relations? ← after ["CONNECT", "BY"] (commaList l.relation)
    needKeywords ["START", "WITH"]
    let start ← l.exprText
    let relations ← match relations? with
      | some relations => pure relations
      | none =>
        needKeywords ["CONNECT", "BY"]
        commaList l.relation
    return some ("START WITH " ++ start ++ " CONNECT BY " ++ commas (relations.map (·.text)))
  else return none

/-! ### SELECT -/

/-- SELECT and what follows it, after the sources that may stand before it. -/
def selectAfter (l : Level) (before : Option (List Joined)) : Reader SelectSentence := do
  needKeyword "SELECT"
  let repeats ← repeats l
  let top ← clause ["TOP"] (top l)
  let items ← if ← sees "FROM" then pure [] else commaList (item l)
  let into ← clause ["INTO"] target
  let after? ← if before.isSome then pure none else after ["FROM"] (sources l)
  let lateralViews ← many (lateralView l)
  let prewhere ← clause ["PREWHERE"] l.exprText
  let condition ← after ["WHERE"] l.expr
  let grouping ← after ["GROUP", "BY"] (grouping l)
  let clusterBy ← clause ["CLUSTER", "BY"] l.exprsText
  let distributeBy ← clause ["DISTRIBUTE", "BY"] l.exprsText
  let sortBy ← clause ["SORT", "BY"] l.exprsText
  let having ← after ["HAVING"] l.expr
  let windows? ← namedWindows l
  let qualify ← qualification l
  let windows ← if windows?.isNone && qualify.isSome then namedWindows l else pure windows?
  let connectBy ← connectBy l
  return {
    place := if before.isSome then .before else .after
    repeats, top, items, into, lateralViews, prewhere, condition, clusterBy, distributeBy, sortBy
    having, windows, qualify, connectBy
    sources := (before <|> after?).getD []
    grouping := grouping.getD (.exprs [] [])
    windowsFirst := windows?.isSome }

/-- A SELECT; its sources may stand first, and then alone. -/
def select (l : Level) : Reader SelectSentence := do
  match ← after ["FROM"] (sources l) with
  | none => selectAfter l none
  | some before =>
    if ← sees "SELECT" then selectAfter l (some before)
    else return { place := .alone, sources := before }

end FlatQuery.Sql.Grammar
