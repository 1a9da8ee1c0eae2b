import FlatQuery.Rows.Row
import FlatQuery.Catalog.Table

/-!
Scopes: which field of a row a column reference means.
-/

namespace FlatQuery

open Rows (Error)

/-- A table and its columns under canonical names. -/
structure ScopeTable where
  name : String
  columns : List String
  deriving DecidableEq, Repr, Inhabited

namespace ScopeTable

def named (name : String) (columns : List String) : ScopeTable :=
  ⟨Name.canonical name, columns.map Name.canonical⟩

/-- The table as the catalog has it. -/
def ofTable (t : Table) : ScopeTable :=
  named t.name t.columnNames

def width (t : ScopeTable) : Nat :=
  t.columns.length

end ScopeTable

/-- What the rows of a stream are made of: the columns of one table, or those of several tables
one after the other. -/
inductive Scope where
  | single (table : ScopeTable)
  | joined (tables : List ScopeTable)
  deriving DecidableEq, Repr, Inhabited

namespace Scope

/-- The scope of one table of a catalog. -/
def ofTable (t : Table) : Scope :=
  single (.ofTable t)

/-- The scope of tables of a catalog, joined in order. -/
def ofTables (ts : List Table) : Scope :=
  joined (ts.map .ofTable)

def tables : Scope → List ScopeTable
  | single t => [t]
  | joined ts => ts

/-- The number of fields of a row of joined tables. -/
def widthOf (ts : List ScopeTable) : Nat :=
  ts.foldr (fun t n => t.width + n) 0

def width (s : Scope) : Nat :=
  widthOf s.tables

/-! ### Resolving -/

/-- The index of a column of a given table among joined tables, the first of which starts at
`offset`.  Only the first table of the name is looked at. -/
def qualifiedIndex? (table column : String) : List ScopeTable → Nat → Option Nat
  | [], _ => none
  | t :: rest, offset =>
    if t.name = table then (t.columns.idxOf? column).map (offset + ·)
    else qualifiedIndex? table column rest (offset + t.width)

/-- The indexes of a column in all tables that have it, one a table. -/
def indexes (column : String) : List ScopeTable → Nat → List Nat
  | [], _ => []
  | t :: rest, offset =>
    ((t.columns.idxOf? column).map (offset + ·)).toList ++ indexes column rest (offset + t.width)

/-- The index of the field that a reference means. -/
def resolve (s : Scope) (c : ColumnRef) : Except Error Nat :=
  let column := Name.canonical c.column
  match s, c.qualifier?.map Name.canonical with
  | single t, qualifier =>
    if qualifier.all (· = t.name) then
      match t.columns.idxOf? column with
      | some i => .ok i
      | none => .error (.unknownColumn c.shown)
    else .error (.unknownColumn c.shown)
  | joined ts, some table =>
    match qualifiedIndex? table column ts 0 with
    | some i => .ok i
    | none => .error (.unknownColumn c.shown)
  | joined ts, none =>
    match indexes column ts 0 with
    | [] => .error (.unknownColumn column)
    | [i] => .ok i
    | _ => .error (.ambiguousColumn column)

/-- The reference, in full, to the field at an index of joined tables. -/
def owner? : List ScopeTable → Nat → Option ColumnRef
  | [], _ => none
  | t :: rest, i =>
    match t.columns[i]? with
    | some column => some { table := some t.name, column }
    | none => owner? rest (i - t.width)

/-- The reference in full: the table that has the column, and the column, in canonical form. -/
def qualify (s : Scope) (c : ColumnRef) : Except Error ColumnRef := do
  let i ← s.resolve c
  match owner? s.tables i with
  | some q => .ok q
  | none => .error (.indexOutOfRange i s.width)

/-! ### Whole expressions -/

mutual

def qualifyExpr (s : Scope) : Expr → Except Error Expr
  | .column c => do return .column (← s.qualify c)
  | .literal v => .ok (.literal v)
  | .binary l op r => do
    let l ← s.qualifyExpr l
    let r ← s.qualifyExpr r
    return .binary l op r
  | .nested e => do return .nested (← s.qualifyExpr e)
  | .call name args => do return .call name (← s.qualifyArguments args)

def qualifyArguments (s : Scope) : List Argument → Except Error (List Argument)
  | [] => .ok []
  | a :: rest => do
    let a ← s.qualifyArgument a
    let rest ← s.qualifyArguments rest
    return a :: rest

def qualifyArgument (s : Scope) : Argument → Except Error Argument
  | .expr e => do return .expr (← s.qualifyExpr e)
  | .star => .ok .star

end

/-- Binds the columns of an expression to fields. -/
def bind (s : Scope) : Expr → Except Error Term
  | .column c => do return .field (← s.resolve c) c.label
  | .literal v => .ok (.literal v)
  | .binary l op r => do
    let l ← s.bind l
    let r ← s.bind r
    return .binary l op r
  | .nested e => do return .nested (← s.bind e)
  | .call name args => .ok (.call (Expr.call name args).text)

/-- Binds the columns of an expression, if there is one. -/
def bind? (s : Scope) : Option Expr → Except Error (Option Term)
  | none => .ok none
  | some e => do return some (← s.bind e)

end Scope

end FlatQuery
