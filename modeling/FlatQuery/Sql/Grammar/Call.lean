import FlatQuery.Sql.Grammar.Level

/-!
Calls of functions: their arguments, and the clauses and windows after them.
-/

namespace FlatQuery.Sql.Grammar

open Reader

/-! ### Stars -/

/-- An expression, or a star that stands for columns. -/
inductive Starred where
  | star
  | tableStar (table : List Ident)
  | expr (e : Phrase)
  deriving Inhabited

/-- The name at the front of tokens, and what follows it. -/
def nameToken? : List Token → Option (Ident × List Token)
  | .word id :: rest => some (id, rest)
  | .string s :: rest => some ({ value := s, quote := some '\'' }, rest)
  | _ => none

/-- What a chain of names with periods between them ends in. -/
inductive Chain where
  /-- A star after the last period. -/
  | star (table : List Ident) (rest : List Token)
  /-- A name after the last period. -/
  | name
  /-- Anything else after a period. -/
  | broken
  deriving Inhabited

/-- Reads on after a name of a chain. -/
def chainAfter (ids : List Ident) : List Token → Chain
  | .symbol "." :: .symbol "*" :: rest => .star ids.reverse rest
  | .symbol "." :: t :: rest =>
    match nameToken? [t] with
    | some (id, _) => chainAfter (id :: ids) rest
    | none => .broken
  | [.symbol "."] => .broken
  | _ => .name

/-- A star, the star of a table, or an expression.  After a name and a period, only names and a
star may follow. -/
def starred (l : Level) : Reader Starred := do
  if ← mark "*" then return .star
  match nameToken? (← upcoming) with
  | none => return .expr (← l.expr)
  | some (id, rest) =>
    match chainAfter [id] rest with
    | .star table rest =>
      set rest
      return .tableStar table
    | .name => return .expr (← l.expr)
    | .broken => unexpected

/-! ### Arguments -/

/-- An argument without a name. -/
def Starred.argument : Starred → CallArgument
  | star => .star
  | tableStar table => .other (dotted table ++ ".*")
  | expr e => .expr e

def namedArgument (l : Level) : Reader CallArgument := do
  let id ← ident
  let operator ←
    if ← keyword "VALUE" then pure "VALUE"
    else if ← mark "=>" then pure "=>"
    else if ← mark ":=" then pure ":="
    else unexpected
  let argument := (← starred l).argument
  return .other (id.text ++ " " ++ operator ++ " " ++ argument.text)

def argument (l : Level) : Reader CallArgument := do
  match ← attempt (namedArgument l) with
  | some a => return a
  | none => return (← starred l).argument

def nullTreatment : Reader (Option String) := do
  if ← keywords ["IGNORE", "NULLS"] then return some "IGNORE NULLS"
  if ← keywords ["RESPECT", "NULLS"] then return some "RESPECT NULLS"
  return none

def argumentClauses (l : Level) : Reader (List String) := do
  let nulls ← nullTreatment
  let order ← after ["ORDER", "BY"] l.orderByText
  let limit ← clause ["LIMIT"] l.exprText
  let bound ← clause ["HAVING"] do
    return (← needOneOf ["MIN", "MAX"]) ++ " " ++ (← l.exprText)
  let separator ← clause ["SEPARATOR"] valueText
  return nulls.toList ++ order.toList ++ limit.toList ++ bound.toList ++ separator.toList

/-- The arguments of a call; its parenthesis is already open. -/
def argumentList (l : Level) : Reader CallArguments := do
  if ← mark ")" then return .list none [] []
  let all ← keyword "ALL"
  let distinct ← keyword "DISTINCT"
  if all && distinct then unexpected
  let args ← commaList (argument l)
  let clauses ← argumentClauses l
  needMark ")"
  return .list (if all then some "ALL" else if distinct then some "DISTINCT" else none) args clauses

/-! ### Windows -/

def frameBound (l : Level) : Reader String := do
  if ← keywords ["CURRENT", "ROW"] then return "CURRENT ROW"
  let rows ← if ← keyword "UNBOUNDED" then pure "UNBOUNDED" else l.exprText
  return rows ++ " " ++ (← needOneOf ["PRECEDING", "FOLLOWING"])

def frame (l : Level) : Reader String := do
  let unit ← needOneOf ["ROWS", "RANGE", "GROUPS"]
  if ← keyword "BETWEEN" then
    let first ← frameBound l
    needKeyword "AND"
    return unit ++ " BETWEEN " ++ first ++ " AND " ++ (← frameBound l)
  else return unit ++ " " ++ (← frameBound l)

/-- A window; its parenthesis is already open. -/
def window (l : Level) : Reader String := do
  let base ←
    if ← seesAny ["PARTITION", "ORDER", "ROWS", "RANGE", "GROUPS"] then pure none
    else match ← peek with
      | some (.word id) =>
        let _ ← next
        pure (some id.text)
      | _ => pure none
  let partition ← clause ["PARTITION", "BY"] l.exprsText
  let order ← after ["ORDER", "BY"] l.orderByText
  let extent ← if ← seesMark ")" then pure none else some <$> frame l
  needMark ")"
  return "(" ++ Text.joined " " (base.toList ++ partition.toList ++ order.toList ++ extent.toList)
    ++ ")"

def windowOrName (l : Level) : Reader String := do
  if ← mark "(" then window l else identText

/-! ### Calls -/

def callTail (l : Level) (args : CallArguments) : Reader CallDetails := do
  let withinGroup ← clause ["WITHIN", "GROUP"] do
    return "(" ++ (← parenthesised (do needKeywords ["ORDER", "BY"]; l.orderByText)) ++ ")"
  let nulls ← if saysNulls args then pure none else nullTreatment
  let window ← clause ["OVER"] (windowOrName l)
  return { withinGroup, nulls, window }
where
  /-- Whether it is said among the arguments how nulls are treated. -/
  saysNulls : CallArguments → Bool
    | .list _ _ clauses => clauses.any ["IGNORE NULLS", "RESPECT NULLS"].contains
    | _ => false

/-- A call of a function with a given name.  Of two lists of arguments the first holds
parameters. -/
def call (l : Level) (name : List Ident) : Reader Phrase := do
  needMark "("
  let first ← argumentList l
  if ← mark "(" then
    let args ← argumentList l
    return .call name args { ← callTail l args with parameters := first.text }
  else return .call name first (← callTail l first)

end FlatQuery.Sql.Grammar
