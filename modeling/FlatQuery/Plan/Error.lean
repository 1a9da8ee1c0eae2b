import FlatQuery.Rows.Error

/-!
What can be wrong with a query, and what else can keep it from being planned.
-/

namespace FlatQuery.Plan

/-- Why a query could not be planned. -/
inductive Error where
  /-- Nothing is selected. -/
  | nothingSelected
  /-- A GROUP BY item that is not a column. -/
  | groupNotColumn
  /-- A star under GROUP BY. -/
  | starWithGroup
  /-- A star beside aggregates. -/
  | starWithAggregates
  /-- A star beside other items. -/
  | starNotAlone
  /-- A column after an aggregate. -/
  | columnAfterAggregate
  /-- An item that is neither a column nor an aggregate. -/
  | itemNotColumn
  /-- A selected column that is not grouped by. -/
  | notGrouped (c : ColumnRef)
  /-- An aggregate that does not have one argument. -/
  | wrongArguments (function : String) (call : Expr)
  /-- No table to read from. -/
  | noSource
  /-- A table that is listed twice. -/
  | repeatedSource (table : String)
  /-- The star of a table that is not read from. -/
  | starOfOther (table : String)
  /-- A source that is not a plain table. -/
  | sourceUnsupported (text : String)
  /-- An aggregate that cannot be computed. -/
  | aggregateUnsupported (label : String)
  /-- An ORDER BY item that is neither a column nor a sum. -/
  | orderUnsupported (e : Expr)
  /-- An ORDER BY item that is not selected. -/
  | orderNotSelected (label : String)
  /-- A table that is not known. -/
  | catalog (cause : Catalog.Error)
  /-- Columns could not be bound, or a data file could not be opened. -/
  | rows (cause : Rows.Error)
  deriving Inhabited

def Error.message : Error → String
  | nothingSelected => "invalid query: SELECT list is empty"
  | groupNotColumn => "invalid query: GROUP BY only supports columns"
  | starWithGroup => "invalid query: SELECT * with GROUP BY is not supported"
  | starWithAggregates => "invalid query: SELECT * with aggregates is not supported"
  | starNotAlone => "invalid query: SELECT * must be the only item"
  | columnAfterAggregate =>
    "invalid query: Aggregate functions must appear at end of SELECT list"
  | itemNotColumn => "invalid query: Non-aggregate SELECT items must be columns"
  | notGrouped c =>
    "invalid query: Non-aggregate SELECT column must appear in GROUP BY: " ++ c.text
  | wrongArguments function call =>
    "invalid query: " ++ function ++ " requires exactly one argument: " ++ call.text
  | noSource => "invalid query: FROM clause is required"
  | repeatedSource table => "invalid query: table listed more than once in FROM: " ++ table
  | starOfOther table => "invalid query: " ++ table ++ ".* names a table not in FROM"
  | sourceUnsupported text => "unsupported operation: FROM item: " ++ text
  | aggregateUnsupported label => "unsupported operation: aggregate function " ++ label
  | orderUnsupported e =>
    "unsupported operation: order by supports only columns and SUM(...), got: " ++ e.text
  | orderNotSelected label => "order by column not in output: " ++ label
  | catalog cause => cause.message
  | rows cause => cause.message

end FlatQuery.Plan
