import FlatQuery.Plan.Error
import FlatQuery.Catalog.Table

/-!
Plans: how the rows of an answer are made of the rows of tables.  Every plan knows the labels of
the fields of its rows.
-/

namespace FlatQuery

/-- A sort key: the label it was found under, the field, and the direction. -/
structure OrderKey where
  label : String
  index : Nat
  ascending : Bool
  deriving DecidableEq, Repr, Inhabited

def OrderKey.text (k : OrderKey) : String :=
  k.label ++ "#" ++ toString k.index ++ (if k.ascending then " ASC" else " DESC")

inductive Plan where
  /-- The rows of a table. -/
  | scan (table : Table)
  /-- The rows of a table that pass a condition. -/
  | select (input : Plan) (table : Table) (condition : Expr)
  /-- The pairs of rows that pass a condition. -/
  | join (left right : Plan) (condition : Option Expr)
  /-- The joined rows that pass a condition. -/
  | filter (input : Plan) (condition : Expr)
  /-- A row for each group. -/
  | groupSum (input : Plan) (groupBy shown : List ColumnRef) (sums : List Expr)
      (sumLabels : List String)
  /-- Some fields of each row. -/
  | project (input : Plan) (columns : List ColumnRef)
  /-- Each row once. -/
  | distinct (input : Plan)
  /-- The rows in order. -/
  | sort (input : Plan) (keys : List OrderKey)
  deriving Inhabited

namespace Plan

/-- The labels of the fields. -/
def labels : Plan → List String
  | scan t => t.columns.map fun c => t.name ++ "." ++ c.name
  | select input _ _ => input.labels
  | join left right _ => left.labels ++ right.labels
  | filter input _ => input.labels
  | groupSum _ _ shown _ sumLabels => shown.map (·.label) ++ sumLabels
  | project _ columns => columns.map (·.label)
  | distinct input => input.labels
  | sort input _ => input.labels

/-- The tables that are read, in the order of their fields. -/
def tables : Plan → List Table
  | scan t => [t]
  | select input _ _ => input.tables
  | join left right _ => left.tables ++ right.tables
  | filter input _ => input.tables
  | groupSum input _ _ _ _ => input.tables
  | project input _ => input.tables
  | distinct input => input.tables
  | sort input _ => input.tables

def line (depth : Nat) (text : String) : String :=
  String.ofList (List.replicate (2 * depth) ' ') ++ text ++ "\n"

/-- The plan as lines, inputs below what uses them. -/
def textAt (depth : Nat) : Plan → String
  | scan t => line depth ("Scan: " ++ t.name)
  | select input t condition =>
    line depth ("Select: " ++ t.name ++ " WHERE " ++ condition.text) ++ input.textAt (depth + 1)
  | join left right condition =>
    line depth ("Join" ++ condition.elim "" fun e => ": ON " ++ e.text) ++
      left.textAt (depth + 1) ++ right.textAt (depth + 1)
  | filter input condition =>
    line depth ("Filter: " ++ condition.text) ++ input.textAt (depth + 1)
  | groupSum input groupBy _ _ sumLabels =>
    line depth ("GroupSum: group=[" ++ Text.joined ", " (groupBy.map (·.text)) ++ "], sums=[" ++
      Text.joined ", " sumLabels ++ "]") ++ input.textAt (depth + 1)
  | project input columns =>
    line depth ("Project: [" ++ Text.joined ", " (columns.map (·.text)) ++ "]") ++
      input.textAt (depth + 1)
  | distinct input => line depth "Distinct" ++ input.textAt (depth + 1)
  | sort input keys =>
    line depth ("Sort: [" ++ Text.joined ", " (keys.map (·.text)) ++ "]") ++
      input.textAt (depth + 1)

def text (p : Plan) : String :=
  p.textAt 0

end Plan

end FlatQuery
