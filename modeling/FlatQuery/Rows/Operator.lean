import FlatQuery.Rows.Source
import FlatQuery.Rows.Restrict
import FlatQuery.Rows.Join
import FlatQuery.Rows.Sort
import FlatQuery.Rows.Distinct
import FlatQuery.Rows.GroupSum

/-!
Operators: trees that say how rows are made, the states they run through, and cursors, which are
operators together with a state.
-/

namespace FlatQuery.Rows

/-- How the rows of a stream are made. -/
inductive Operator where
  | listed (rows : List Row)
  | scan (table : Table)
  | filter (input : Operator) (condition : Option Term)
  | project (input : Operator) (indexes : List Nat) (labels : List String)
  | join (left right : Operator) (condition : Option Term)
  | sort (input : Operator) (keys : List SortKey)
  | groupSum (input : Operator) (spec : GroupSpec)
  | distinct (input : Operator)
  deriving DecidableEq, Repr, Inhabited

namespace Operator

def State : Operator → Type
  | listed _ => List Row
  | scan _ => Files.Handle
  | filter input _ => input.State
  | project input _ _ => input.State
  | join left right _ => JoinState left.State right.State
  | sort input _ => GatherState input.State
  | groupSum input _ => GatherState input.State
  | distinct input => GatherState input.State

def machine : (op : Operator) → Machine op.State
  | listed rows => Rows.listed rows
  | scan table => scanned table
  | filter input condition => filtered input.machine condition
  | project input indexes _ => projected input.machine indexes
  | join left right condition => joined left.machine right.machine condition
  | sort input keys => gathered input.machine (sorting keys)
  | groupSum input spec => gathered input.machine (grouping spec)
  | distinct input => gathered input.machine deduplicating

end Operator

/-- An operator and how far it has come. -/
structure Cursor where
  op : Operator
  state : op.State

namespace Cursor

/-! ### Setting up -/

/-- A cursor at the first of the rows of a list. -/
def listed (rows : List Row) : Cursor :=
  ⟨.listed rows, rows⟩

def scan (fs : Files) (t : Table) : Except Error Cursor := do
  return ⟨.scan t, ← openTable fs t⟩

/-- Selects the rows that pass a condition, whose columns are bound in a scope. -/
def filter (c : Cursor) (condition : Option Expr) (scope : Scope) : Except Error Cursor := do
  return ⟨.filter c.op (← scope.bind? condition), c.state⟩

/-- Keeps the columns that references mean in a scope. -/
def project (c : Cursor) (columns : List ColumnRef) (scope : Scope) : Except Error Cursor := do
  return ⟨.project c.op (← columns.mapM scope.resolve) (columns.map (·.label)), c.state⟩

/-- Joins two cursors under a condition, whose columns are bound in a scope. -/
def join (l r : Cursor) (condition : Option Expr) (scope : Scope) : Except Error Cursor := do
  return ⟨.join l.op r.op (← scope.bind? condition), { left := l.state, right := r.state }⟩

def sort (c : Cursor) (keys : List SortKey) : Cursor :=
  ⟨.sort c.op keys, { input := c.state }⟩

/-- Groups and sums, with columns bound in a scope. -/
def groupSum (c : Cursor) (group shown : List ColumnRef) (sums : List Expr) (scope : Scope) :
    Except Error Cursor := do
  let group ← group.mapM scope.resolve
  let shown ← shown.mapM scope.resolve
  let sums ← sums.mapM scope.bind
  return ⟨.groupSum c.op { group, shown, sums }, { input := c.state }⟩

/-- Drops repeated rows. -/
def distinct (c : Cursor) : Cursor :=
  ⟨.distinct c.op, { input := c.state }⟩

/-! ### Running -/

/-- The next row, `none` at the end. -/
def next (fs : Files) (c : Cursor) : Except Error (Option Row) × Cursor :=
  let (outcome, state) := c.op.machine.next fs c.state
  (outcome, ⟨c.op, state⟩)

def reset (fs : Files) (c : Cursor) : Except Error Unit × Cursor :=
  let (outcome, state) := c.op.machine.reset fs c.state
  (outcome, ⟨c.op, state⟩)

/-- The rows up to the end or the first error, and that error. -/
def drain (fs : Files) (c : Cursor) : List Row × Option Error × Cursor :=
  let (rows, e, state) := c.op.machine.drain fs c.state
  (rows, e, ⟨c.op, state⟩)

end Cursor

end FlatQuery.Rows
