import FlatQuery.Plan.Basic
import FlatQuery.Plan.Conjuncts
import FlatQuery.Plan.SelectList
import FlatQuery.Rows.Scope
import FlatQuery.Catalog.Basic

/-!
From a query to a plan.  The tables are joined from left to right, each conjunct of WHERE standing
as far down as the tables it mentions allow; then rows are grouped or cut down to the selected
columns, repeated rows are dropped, and the rest is sorted.
-/

namespace FlatQuery.Plan

/-! ### Sources -/

/-- The tables of the FROM list, given the names of those before. -/
def sourceTables (catalog : Catalog) (seen : List String) : List Source → Except Error (List Table)
  | [] => .ok []
  | .other text :: _ => .error (.sourceUnsupported text)
  | .table name :: rest =>
    match catalog.get name with
    | .error e => .error (.catalog e)
    | .ok t =>
      if seen.contains t.name then .error (.repeatedSource t.name)
      else do
        let ts ← sourceTables catalog (t.name :: seen) rest
        return t :: ts

/-- A scan under the conjuncts that concern its table alone. -/
def selection (t : Table) (conditions : List Expr) : Plan :=
  match Expr.conjunction? conditions with
  | some e => .select (.scan t) t e
  | none => .scan t

/-- The scans of tables, each under the conjuncts it takes. -/
def selections (c : Conjuncts) : List Table → List (Table × Plan) × Conjuncts
  | [] => ([], c)
  | t :: rest =>
    let (conditions, c) := c.takeTable t.name
    let (plans, c) := selections c rest
    ((t, selection t conditions) :: plans, c)

/-- Joins further inputs to a plan over the tables named `left`. -/
def joins (left : List String) (plan : Plan) (c : Conjuncts) :
    List (Table × Plan) → Plan × Conjuncts
  | [] => (plan, c)
  | (t, right) :: rest =>
    let (conditions, c) := c.takeJoin left t.name
    joins (left ++ [t.name]) (.join plan right (Expr.conjunction? conditions)) c rest

/-- The plan for FROM and WHERE. -/
def base (tables : List Table) (condition : Option Expr) : Except Error Plan :=
  let scope := Scope.ofTables tables
  let qualified : Except Error (Option Expr) :=
    match condition with
    | none => .ok none
    | some e =>
      match scope.qualifyExpr e with
      | .ok q => .ok (some q)
      | .error e => .error (.rows e)
  match qualified with
  | .error e => .error e
  | .ok condition =>
    match selections (.ofCondition condition) tables with
    | ([], _) => .error .noSource
    | ((first, plan) :: rest, c) =>
      let (plan, c) := joins [first.name] plan c rest
      match Expr.conjunction? c.takeAll.1 with
      | some e => .ok (.filter plan e)
      | none => .ok plan

/-! ### Grouping and projection -/

/-- The arguments of sums, and their labels. -/
def sumsOf : List Aggregate → Except Error (List Expr × List String)
  | [] => .ok ([], [])
  | a :: rest =>
    match a.function, a.argument with
    | .sum, some e => do
      let (es, ls) ← sumsOf rest
      return (e :: es, a.label :: ls)
    | _, _ => .error (.aggregateUnsupported a.label)

/-- The plan that groups: by the GROUP BY columns, or by the selected ones if there are none. -/
def grouped (input : Plan) (columns groupBy : List ColumnRef) (aggregates : List Aggregate) :
    Except Error Plan := do
  let (sums, labels) ← sumsOf aggregates
  return .groupSum input (if groupBy.isEmpty then columns else groupBy) columns sums labels

def columnsOf (t : Table) : List ColumnRef :=
  t.columns.map fun c => { table := some t.name, column := c.name }

def selected (list : SelectList) (tables : List Table) (input : Plan) : Except Error Plan :=
  match list with
  | .star none => .ok input
  | .star (some name) =>
    match tables.find? (·.name == name) with
    | none => .error (.starOfOther name)
    | some t => .ok (if tables.length = 1 then input else .project input (columnsOf t))
  | .listed columns groupBy aggregates =>
    if list.isGrouped then grouped input columns groupBy aggregates
    else .ok (.project input columns)

/-! ### Order -/

/-- The column part of the label of a qualified column; labels of sums have none. -/
def columnPart? (label : String) : Option String :=
  match Text.cutAt? '.' label with
  | some (table, column) => if table.toList.contains '(' then none else some column
  | none => none

/-- The field that an ORDER BY label means: the first of that label, or else the first whose
column part it is. -/
def fieldOf? (labels : List String) (label : String) : Option Nat :=
  match labels.idxOf? label with
  | some i => some i
  | none => labels.findIdx? fun l => columnPart? l == some label

def orderLabel : Expr → Except Error String
  | .column c => .ok c.label
  | .call name args =>
    if Name.canonical name = "sum" then
      match args with
      | [.expr e] => .ok (Aggregate.label { function := .sum, argument := some e })
      | _ => .error (.wrongArguments "SUM" (.call name args))
    else .error (.orderUnsupported (.call name args))
  | e => .error (.orderUnsupported e)

def orderKey (labels : List String) (item : OrderItem) : Except Error OrderKey := do
  let label ← orderLabel item.expr
  match fieldOf? labels label with
  | some index => return { label, index, ascending := item.ascending }
  | none => .error (.orderNotSelected label)

def orderKeys (items : List OrderItem) (labels : List String) : Except Error (List OrderKey) :=
  items.mapM (orderKey labels)

/-! ### The whole -/

/-- Each row once, if the query asks for that. -/
def deduplicated (distinct : Bool) (plan : Plan) : Plan :=
  if distinct then .distinct plan else plan

/-- The rows in order, if the query asks for that. -/
def ordered (items : List OrderItem) (plan : Plan) : Except Error Plan :=
  if items.isEmpty then .ok plan
  else do return .sort plan (← orderKeys items plan.labels)

def ofSelect (catalog : Catalog) (q : Select) : Except Error Plan := do
  let list ← SelectList.analyse q.items q.groupBy
  if q.sources.isEmpty then .error .noSource
  else
    let tables ← sourceTables catalog [] q.sources
    let plan ← base tables q.condition
    let plan ← selected list tables plan
    ordered q.orderBy (deduplicated q.distinct plan)

end FlatQuery.Plan
