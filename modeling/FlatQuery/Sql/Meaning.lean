import FlatQuery.Text.Integer
import FlatQuery.Query.Select
import FlatQuery.Sql.Error
import FlatQuery.Sql.Sentence

/-!
The query that a sentence means, if it is one that can be answered.  Of several reasons to refuse a
sentence the first one counts, in the order in which its parts are looked at here.
-/

namespace FlatQuery.Sql

/-! ### Expressions -/

mutual

/-- The expression that is meant. -/
def Phrase.meaning : Phrase → Except Error Expr
  | .name id => .ok (.column { column := id.value })
  | .path [table, column] => .ok (.column { table := some table.value, column := column.value })
  | .path ids => .error (.longName (Text.joined "." (ids.map (·.value))))
  | .number digits _ =>
    match Integer.ofText? digits with
    | some n => .ok (.literal (.integer n))
    | none => .error (.notInteger digits)
  | .string s => .ok (.literal (.string s))
  | .constant text => .error (.unsupportedValue text)
  | .binary left op right => do
    let l ← left.meaning
    let r ← right.meaning
    match BinaryOp.ofSymbol? op with
    | some op => return .binary l op r
    | none => throw (.unsupportedOperator op)
  | .negated e => do
    match ← e.meaning with
    | .literal (.integer n) => return .literal (.integer (-n))
    | _ => throw (.unsupportedExpr (Phrase.negated e).text)
  | .nested e => do return .nested (← e.meaning)
  | .call name args _ => do return .call (dotted name) (← args.meaning)
  | .subquery text => .error (.unsupportedExpr (Phrase.subquery text).text)
  | .other text => .error (.unsupportedExpr text)

def CallArguments.meaning : CallArguments → Except Error (List Argument)
  | .absent => .ok []
  | .query text => .error (.unsupportedArguments (CallArguments.query text).text)
  | .list _ args _ => callArgumentsMeaning args

/-- The arguments that are meant, from the first one that is refused on none. -/
def callArgumentsMeaning : List CallArgument → Except Error (List Argument)
  | [] => .ok []
  | a :: rest => do return (← a.meaning) :: (← callArgumentsMeaning rest)

def CallArgument.meaning : CallArgument → Except Error Argument
  | .expr e => do return .expr (← e.meaning)
  | .star => .ok .star
  | .other text => .error (.unsupportedArgument text)

end

/-! ### Queries -/

/-- The source that is meant.  Of the name of a table only the last part counts. -/
def Joined.meaning (j : Joined) : Except Error Source :=
  if j.joins.isEmpty then
    match j.first.head, j.first.aliasName with
    | .table name _, none =>
      match name.getLast? with
      | some id => .ok (.table id.value)
      | none => .error (.longName "empty table name")
    | _, _ => .ok (.other j.first.text)
  else .ok (.other ("explicit JOIN syntax: " ++ j.text))

/-- The qualifier of a star, as it is written with its star, without all stars after periods at its
end. -/
def starTable (qualifier : String) : String :=
  String.ofList (withoutStars (qualifier ++ ".*").toList.reverse).reverse
where
  /-- Drops stars and periods in turn off the front of a reversed text. -/
  withoutStars : List Char → List Char
    | '*' :: '.' :: rest => withoutStars rest
    | cs => cs

/-- The item that is meant.  What is said about a star does not count. -/
def Item.meaning : Item → Except Error SelectItem
  | star _ => .ok .star
  | tableStar qualifier _ => .ok (.tableStar (starTable qualifier))
  | expr e => do return .expr (← e.meaning)
  | aliased _ aliasName => .error (.columnAlias aliasName.value)

def Grouping.meaning : Grouping → Except Error (List Expr)
  | all _ => .error .groupByAll
  | exprs es _ => es.mapM (·.meaning)

/-- The sort key that is meant: ascending if nothing is said. -/
def SortItem.meaning (o : SortItem) : Except Error OrderItem := do
  return { expr := ← o.expr.meaning, ascending := o.options.ascending.getD true }

def SortKeys.meaning : SortKeys → Except Error (List OrderItem)
  | all _ => .error .orderByAll
  | items keys => keys.mapM (·.meaning)

/-- Whether equal rows are dropped. -/
def Repeats.meaning : Repeats → Except Error Bool
  | kept => .ok false
  | dropped => .ok true
  | droppedOn _ => .error .distinctOn

def QuerySentence.meaning (q : QuerySentence) : Except Error Select := do
  match q.body with
  | .other text => throw (.notPlainSelect text)
  | .select s =>
    if q.withClause.isSome then throw .withClause
    if q.limit.isSome || q.offset.isSome then throw .limitClause
    if s.having.isSome then throw .havingClause
    let distinct ← s.repeats.meaning
    let sources ← s.sources.mapM (·.meaning)
    let items ← s.items.mapM (·.meaning)
    let condition ← s.condition.mapM (·.meaning)
    let groupBy ← s.grouping.meaning
    let orderBy ← q.orderBy.meaning
    return { distinct, items, sources, condition, groupBy, orderBy }

def Sentence.meaning : Sentence → Except Error Select
  | query q => q.meaning
  | other text => .error (.notQuery text)

end FlatQuery.Sql
