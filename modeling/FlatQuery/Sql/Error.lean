import FlatQuery.Files.Basic

/-!
Why a query text is refused.
-/

namespace FlatQuery.Sql

/-- Why a query text is refused. -/
inductive Error where
  /-- The text does not follow the grammar of SQL. -/
  | malformed
  /-- There is no statement. -/
  | empty
  /-- There are several statements. -/
  | several
  /-- A statement of another kind. -/
  | notQuery (text : String)
  /-- A query that is more than one SELECT. -/
  | notPlainSelect (text : String)
  | withClause
  | limitClause
  | havingClause
  | distinctOn
  | groupByAll
  | orderByAll
  /-- A SELECT item under an alias. -/
  | columnAlias (name : String)
  /-- A number that is not an integer in range. -/
  | notInteger (number : String)
  /-- A literal that is neither a number nor a plain string. -/
  | unsupportedValue (text : String)
  /-- An operator that is not known. -/
  | unsupportedOperator (symbol : String)
  /-- An argument that is neither an expression nor a star. -/
  | unsupportedArgument (text : String)
  /-- Arguments that are not a list. -/
  | unsupportedArguments (text : String)
  /-- Any other expression that is not known. -/
  | unsupportedExpr (text : String)
  /-- A name of more than two parts. -/
  | longName (text : String)
  /-- The query file could not be read. -/
  | file (path : String) (cause : Files.Error)
  deriving DecidableEq, Repr, Inhabited

def Error.message : Error → String
  | malformed => "syntax error"
  | empty => "empty query"
  | several => "multiple statements not supported"
  | notQuery text => "unsupported statement: only SELECT is supported, got: " ++ text
  | notPlainSelect text =>
    "unsupported statement: only simple SELECT queries are supported, got: " ++ text
  | withClause => "unsupported statement: WITH clause"
  | limitClause => "unsupported statement: LIMIT/OFFSET"
  | havingClause => "unsupported statement: HAVING clause"
  | distinctOn => "unsupported statement: DISTINCT ON"
  | groupByAll => "unsupported statement: GROUP BY ALL"
  | orderByAll => "unsupported statement: ORDER BY ALL"
  | columnAlias name => "unsupported expression: column alias '" ++ name ++ "'"
  | notInteger number => "unsupported expression: non-integer number: " ++ number
  | unsupportedValue text => "unsupported expression: unsupported value: " ++ text
  | unsupportedOperator symbol => "unsupported expression: unsupported operator: " ++ symbol
  | unsupportedArgument text => "unsupported expression: function argument: " ++ text
  | unsupportedArguments text => "unsupported expression: function arguments: " ++ text
  | unsupportedExpr text => "unsupported expression: " ++ text
  | longName text => "invalid identifier: " ++ text
  | file path cause => "cannot read query file " ++ path ++ ": " ++ cause.message

end FlatQuery.Sql
