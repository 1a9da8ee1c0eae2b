import FlatQuery.Sql.Reader

/-!
What constructs of SQL may hold.  The grammar is defined level by level: a construct is read with
readers for what stands inside it, which are those of the level below.
-/

namespace FlatQuery.Sql.Grammar

open Reader

/-- Readers for what may stand inside a construct. -/
structure Level where
  /-- An expression up to an operator that binds no more tightly than a given strength. -/
  phrase : Nat → Reader Phrase
  query : Reader QuerySentence
  /-- A query body up to a set operator that binds no more tightly than a given strength. -/
  body : Nat → Reader Body
  factor : Reader Factor
  statement : Reader Sentence
  /-- An expression in which PRIOR may stand before an operand. -/
  relation : Reader Phrase
  /-- Whether PRIOR may stand before an operand on this level. -/
  allowsPrior : Bool

/-- The level on which nothing can be read. -/
def Level.empty (allowsPrior : Bool) : Level where
  phrase _ := unexpected
  query := unexpected
  body _ := unexpected
  factor := unexpected
  statement := unexpected
  relation := unexpected
  allowsPrior

namespace Level

variable (l : Level)

def expr : Reader Phrase :=
  l.phrase 0

def exprText : Reader String := do
  return (← l.expr).text

def exprs : Reader (List Phrase) :=
  commaList l.expr

def exprsText : Reader String := do
  return commas ((← l.exprs).map (·.text))

def queryText : Reader String := do
  return (← l.query).text

/-! ### Sort keys -/

/-- A direction and a place for nulls, as far as they follow. -/
def sortOptions : Reader SortOptions := do
  let ascending ← oneRunFor [(["ASC"], true), (["DESC"], false)]
  let nullsFirst ← oneRunFor [(["NULLS", "FIRST"], true), (["NULLS", "LAST"], false)]
  return { ascending, nullsFirst }

/-- Values to be put between sorted ones, if they follow. -/
def sortFill : Reader (Option String) :=
  after ["WITH", "FILL"] do
    let first ← clause ["FROM"] l.exprText
    let last ← clause ["TO"] l.exprText
    let step ← clause ["STEP"] l.exprText
    return Text.joined " " ("WITH FILL" :: first.toList ++ last.toList ++ step.toList)

def sortItem : Reader SortItem := do
  let expr ← l.expr
  return { expr, options := ← sortOptions, fill := ← l.sortFill }

def sortItems : Reader (List SortItem) :=
  commaList l.sortItem

def orderByText : Reader String := do
  return "ORDER BY " ++ commas ((← l.sortItems).map (·.text))

end Level

/-! ### Names and values -/

def nameText : Reader String := do
  return dotted (← name)

def identText : Reader String := do
  return (← ident).text

/-- Parts between parentheses with commas between them, as they are written out. -/
def listText (r : Reader String) : Reader String := do
  return "(" ++ commas (← parenthesised (commaList r)) ++ ")"

def namesText : Reader String :=
  listText identText

/-- A number of digits that fits an unsigned word of 64 bits, in decimal notation. -/
def digits : Reader String := do
  match ← next with
  | .number digits _ =>
    let n := digits.toList.foldl (fun n d => 10 * n + (d.toNat - '0'.toNat)) 0
    if digits.toList.all Char.isDigit && n < 18446744073709551616 then return toString n
    else unexpected
  | _ => unexpected

def value : Reader Phrase := do
  match ← next with
  | .number digits long => return .number digits long
  | .string s => return .string s
  | .constant text => return .constant text
  | .symbol ":" => return .constant (":" ++ (← placeholder))
  | .symbol "@" => return .constant ("@" ++ (← placeholder))
  | .word { value := s, quote := some '"' } => return .constant (quoted '"' s)
  | t =>
    match t.keyword? with
    | some "TRUE" => return .constant "true"
    | some "FALSE" => return .constant "false"
    | some "NULL" => return .constant "NULL"
    | _ => unexpected
where
  /-- The name of a placeholder. -/
  placeholder : Reader String := do
    match ← next with
    | .word id => return id.value
    | .number digits false => return digits
    | _ => unexpected

def valueText : Reader String := do
  return (← value).text

end FlatQuery.Sql.Grammar
