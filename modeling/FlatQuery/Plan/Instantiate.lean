import FlatQuery.Plan.Assemble
import FlatQuery.Rows.Operator

/-!
From a plan to a cursor.  Data files are opened and columns are bound, so what is wrong with either
shows before the first row.
-/

namespace FlatQuery.Plan

/-- The sort key of a plan as a sort key of rows. -/
def sortKey (k : OrderKey) : Rows.SortKey :=
  { index := k.index, ascending := k.ascending }

/-- The cursor of a plan. -/
def instantiate (fs : Files) : Plan → Except Rows.Error Rows.Cursor
  | .scan t => Rows.Cursor.scan fs t
  | .select input t condition => do
    (← input.instantiate fs).filter (some condition) (.ofTable t)
  | .join left right condition => do
    let l ← left.instantiate fs
    let r ← right.instantiate fs
    l.join r condition (.ofTables (left.tables ++ right.tables))
  | .filter input condition => do
    (← input.instantiate fs).filter (some condition) (.ofTables input.tables)
  | .groupSum input groupBy shown sums _ => do
    (← input.instantiate fs).groupSum groupBy shown sums (.ofTables input.tables)
  | .project input columns => do
    (← input.instantiate fs).project columns (.ofTables input.tables)
  | .distinct input => do return (← input.instantiate fs).distinct
  | .sort input keys => do return (← input.instantiate fs).sort (keys.map sortKey)

/-- A planned query: its plan, the labels of its answer, and a cursor before the first row. -/
structure Prepared where
  plan : Plan
  labels : List String
  cursor : Rows.Cursor

/-- Plans a query and opens what it reads. -/
def prepare (fs : Files) (catalog : Catalog) (q : Select) : Except Error Prepared := do
  let plan ← ofSelect catalog q
  match plan.instantiate fs with
  | .ok cursor => return { plan, labels := plan.labels, cursor }
  | .error e => .error (.rows e)

end FlatQuery.Plan
