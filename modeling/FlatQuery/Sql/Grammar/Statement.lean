import FlatQuery.Sql.Grammar.Query

/-!
Statements other than queries, as they are written out.
-/

namespace FlatQuery.Sql.Grammar

open Reader

/-! ### Changing rows -/

def sourcesText (l : Level) : Reader String := do
  return commas ((← sources l).map (·.text))

def itemsText (l : Level) : Reader String := do
  return commas ((← commaList (item l)).map (·.text))

def deleteText (l : Level) : Reader String := do
  let lead := if ← keyword "FROM" then "DELETE FROM " else "DELETE "
  let from? ← sourcesText l
  let using? ← clause ["USING"] (sourcesText l)
  let condition ← clause ["WHERE"] l.exprText
  let answer ← clause ["RETURNING"] (itemsText l)
  let order ← after ["ORDER", "BY"] l.orderByText
  let limit ← clause ["LIMIT"] l.exprText
  return lead ++ from? ++ spaced using? ++ spaced condition ++ spaced answer ++ spaced order ++
    spaced limit

def insertText (l : Level) : Reader String := do
  let overwrite := if ← keyword "OVERWRITE" then " OVERWRITE" else ""
  let into := if ← keyword "INTO" then " INTO" else ""
  let table := if ← keyword "TABLE" then " TABLE" else ""
  let lead := "INSERT" ++ overwrite ++ into ++ table ++ " " ++ (← nameText)
  if ← keywords ["DEFAULT", "VALUES"] then return lead ++ " DEFAULT VALUES"
  let columns ← if ← seesNames then some <$> namesText else pure none
  let source ← l.queryText
  let answer ← clause ["RETURNING"] (itemsText l)
  return lead ++ spaced columns ++ " " ++ source ++ spaced answer
where
  /-- Whether names between parentheses follow, and not a query. -/
  seesNames : Reader Bool := do
    match ← upcoming with
    | .symbol "(" :: t :: _ => return !t.isKeyword "SELECT" && !t.isKeyword "WITH"
    | _ => return false

def assignment (l : Level) : Reader String := do
  let column ← if ← seesMark "(" then listText nameText else nameText
  needMark "="
  return column ++ " = " ++ (← l.exprText)

def updateText (l : Level) : Reader String := do
  let table := (← joined l).text
  needKeyword "SET"
  let assignments ← commaList (assignment l)
  let from? ← clause ["FROM"] (sourcesText l)
  let condition ← clause ["WHERE"] l.exprText
  let answer ← clause ["RETURNING"] (itemsText l)
  return "UPDATE " ++ table ++ " SET " ++ commas assignments ++ spaced from? ++ spaced condition ++
    spaced answer

/-! ### Changing tables -/

def columnOption (l : Level) : Reader (Option String) := do
  match ← oneRunOf [["NOT", "NULL"], ["NULL"], ["PRIMARY", "KEY"], ["UNIQUE"]] with
  | some text => return some text
  | none =>
    match ← clause ["DEFAULT"] l.exprText with
    | some text => return some text
    | none =>
      match ← clause ["CHECK"] (do return "(" ++ (← parenthesised l.exprText) ++ ")") with
      | some text => return some text
      | none =>
        clause ["REFERENCES"] do
          let table ← nameText
          if ← seesMark "(" then return table ++ " " ++ (← namesText) else return table

def columnText (l : Level) : Reader String := do
  let id ← ident
  let type ← if ← isLast then pure none else some <$> dataType
  let options ← many (columnOption l)
  return Text.joined " " ([id.text] ++ type.toList ++ options)
where
  /-- Whether the definition ends after the name. -/
  isLast : Reader Bool := do
    match ← peek with
    | some (.symbol s) => return s == "," || s == ")"
    | _ => return false

def tableCondition (l : Level) : Reader (Option String) := do
  let id ← clause ["CONSTRAINT"] identText
  let named (text : String) := some (Text.joined " " (id.toList ++ [text]))
  match ← oneRunOf [["PRIMARY", "KEY"], ["UNIQUE"]] with
  | some words => return named (words ++ " " ++ (← namesText))
  | none =>
    match ← clause ["CHECK"] (do return "(" ++ (← parenthesised l.exprText) ++ ")") with
    | some text => return named text
    | none =>
      match ← clause ["FOREIGN", "KEY"] namesText with
      | some text =>
        needKeyword "REFERENCES"
        let table ← nameText
        let columns ← if ← seesMark "(" then namesText else pure "()"
        return named (text ++ " REFERENCES " ++ table ++ columns)
      | none => if id.isSome then unexpected else return none

def tableElement (l : Level) : Reader String := do
  match ← tableCondition l with
  | some text => return text
  | none => columnText l

def unlessExists : Reader String := do
  return if ← keywords ["IF", "NOT", "EXISTS"] then "IF NOT EXISTS " else ""

def ifExists : Reader String := do
  return if ← keywords ["IF", "EXISTS"] then "IF EXISTS " else ""

def tableText (l : Level) (lead : String) : Reader String := do
  let condition ← unlessExists
  let table ← nameText
  let elements ←
    if ← marks ["(", ")"] then pure none
    else if ← seesMark "(" then some <$> listText (tableElement l)
    else pure none
  let source ← clause ["AS"] l.queryText
  let shown := if source.isNone then some (elements.getD "()") else elements
  return lead ++ "TABLE " ++ condition ++ table ++ spaced shown ++ spaced source

def viewText (l : Level) (lead : String) : Reader String := do
  let condition ← unlessExists
  let view ← nameText
  let columns ← if ← seesMark "(" then some <$> namesText else pure none
  needKeyword "AS"
  return lead ++ "VIEW " ++ condition ++ view ++ spaced columns ++ " AS " ++ (← l.queryText)

def indexStatement (l : Level) (lead : String) : Reader String := do
  let condition ← unlessExists
  let id ← if ← sees "ON" then pure "" else (· ++ " ") <$> nameText
  needKeyword "ON"
  let table ← nameText
  let method ← clause ["USING"] ((· ++ " ") <$> identText)
  let columns ← parenthesised l.sortItems
  return lead ++ "INDEX " ++ condition ++ id ++ "ON " ++ table ++ spaced method ++ "(" ++
    Text.joined "," (columns.map (·.text)) ++ ")"

def createText (l : Level) : Reader String := do
  let again := if ← keywords ["OR", "REPLACE"] then "CREATE OR REPLACE " else "CREATE "
  let temporary := if (← oneOf ["TEMP", "TEMPORARY"]).isSome then "TEMPORARY " else ""
  if ← keyword "TABLE" then tableText l (again ++ temporary)
  else
    let materialized := if ← keyword "MATERIALIZED" then "MATERIALIZED " else ""
    if ← keyword "VIEW" then viewText l (again ++ materialized ++ temporary)
    else
      let unique := if ← keyword "UNIQUE" then "UNIQUE " else ""
      needKeyword "INDEX"
      indexStatement l (again ++ unique)

def dropText : Reader String := do
  let kind ← needOneOf ["TABLE", "VIEW", "INDEX", "SCHEMA", "DATABASE", "ROLE", "SEQUENCE"]
  let condition ← ifExists
  let names ← commaList nameText
  let behaviour ← oneOf ["CASCADE", "RESTRICT"]
  return "DROP " ++ kind ++ " " ++ condition ++ commas names ++ spaced behaviour

def alteration (l : Level) : Reader String := do
  match ← needOneOf ["ADD", "DROP", "RENAME"] with
  | "ADD" =>
    match ← tableCondition l with
    | some text => return "ADD " ++ text
    | none =>
      let word := if ← keyword "COLUMN" then "COLUMN " else ""
      return "ADD " ++ word ++ (← unlessExists) ++ (← columnText l)
  | "DROP" =>
    let _ ← keyword "COLUMN"
    let condition ← ifExists
    let id ← ident
    return "DROP COLUMN " ++ condition ++ id.text ++ spaced (← oneOf ["CASCADE", "RESTRICT"])
  | _ =>
    if ← keyword "TO" then return "RENAME TO " ++ (← nameText)
    let _ ← keyword "COLUMN"
    let id ← ident
    needKeyword "TO"
    return "RENAME COLUMN " ++ id.text ++ " TO " ++ (← identText)

def alterText (l : Level) : Reader String := do
  needKeyword "TABLE"
  let condition ← ifExists
  let table ← nameText
  return "ALTER TABLE " ++ condition ++ table ++ " " ++ commas (← commaList (alteration l))

def truncateText : Reader String := do
  let word := if ← keyword "TABLE" then "TABLE " else ""
  return "TRUNCATE " ++ word ++ commas (← commaList nameText)

/-! ### The session -/

def explainText (l : Level) (word : String) : Reader String := do
  let analyze := if ← keyword "ANALYZE" then "ANALYZE " else ""
  let verbose := if ← keyword "VERBOSE" then "VERBOSE " else ""
  match ← attempt l.statement with
  | some s => return word ++ " " ++ analyze ++ verbose ++ s.text
  | none =>
    let table := if ← keyword "TABLE" then "TABLE " else ""
    return word ++ " " ++ table ++ (← nameText)

def setText (l : Level) : Reader String := do
  let setting ← nameText
  unless (← mark "=") || (← keyword "TO") do unexpected
  return "SET " ++ setting ++ " = " ++ (← l.exprsText)

def showText : Reader String := do
  match ← oneOf ["TABLES", "COLUMNS", "DATABASES", "SCHEMAS", "VIEWS", "FUNCTIONS"] with
  | some word => return "SHOW " ++ word
  | none => return "SHOW " ++ Text.joined " " ((← many name?).map (·.text))
where
  /-- A name, if one follows. -/
  name? : Reader (Option Ident) := attempt ident

def beginText (word : String) : Reader String := do
  return word ++ spaced (← oneOf ["TRANSACTION", "WORK"])

def endText (word : String) : Reader String := do
  let _ ← oneOf ["TRANSACTION", "WORK"]
  return word ++ (if ← keywords ["AND", "CHAIN"] then " AND CHAIN" else "")

/-! ### Statements -/

/-- The reader for what a keyword starts, if it starts a statement other than a query. -/
def statement? (l : Level) (word : String) : Option (Reader String) :=
  match word with
  | "DELETE" => some (deleteText l)
  | "INSERT" => some (insertText l)
  | "UPDATE" => some (updateText l)
  | "CREATE" => some (createText l)
  | "DROP" => some dropText
  | "ALTER" => some (alterText l)
  | "TRUNCATE" => some truncateText
  | "EXPLAIN" | "DESCRIBE" | "DESC" => some (explainText l word)
  | "SET" => some (setText l)
  | "SHOW" => some showText
  | "USE" => some (do return "USE " ++ (← nameText))
  | "BEGIN" => some (beginText word)
  | "START" => some (do needKeyword "TRANSACTION"; return "START TRANSACTION")
  | "COMMIT" | "ROLLBACK" => some (endText word)
  | _ => none

def statement (l : Level) : Reader Sentence :=
  deeper do
    if (← seesAny ["SELECT", "WITH", "VALUES", "FROM"]) || (← seesMark "(") then
      return .query (← l.query)
    match ((← next).keyword?).bind (statement? l) with
    | some r => return .other (← r)
    | none => unexpected

end FlatQuery.Sql.Grammar
