import FlatQuery.Plan.Error
import FlatQuery.Query.Select

/-!
What a SELECT list asks for, together with GROUP BY.  It is a star alone, or columns and then
aggregates; under GROUP BY each of the columns must be grouped by.
-/

namespace FlatQuery

/-- The aggregate functions that are known. -/
inductive AggregateFunction where
  | sum
  | count
  deriving DecidableEq, Repr, Inhabited

namespace AggregateFunction

def name : AggregateFunction → String
  | sum => "sum"
  | count => "count"

def capitals : AggregateFunction → String
  | sum => "SUM"
  | count => "COUNT"

/-- The function with a name, however it is spelled. -/
def ofName? (name : String) : Option AggregateFunction :=
  [sum, count].find? fun f => f.name == FlatQuery.Name.canonical name

end AggregateFunction

/-- An aggregate call; without argument it counts rows. -/
structure Aggregate where
  function : AggregateFunction
  argument : Option Expr
  deriving Inhabited

def Aggregate.label (a : Aggregate) : String :=
  FlatQuery.Name.canonical
    (a.function.name ++ "(" ++ (a.argument.elim "*" (·.text)) ++ ")")

/-- What is asked for. -/
inductive SelectList where
  /-- All fields, or all those of one table. -/
  | star (table : Option String)
  /-- Columns and then aggregates, with the columns of GROUP BY; all references canonical. -/
  | listed (columns groupBy : List ColumnRef) (aggregates : List Aggregate)
  deriving Inhabited

namespace SelectList

open Plan (Error)

/-- Whether rows have to be grouped. -/
def isGrouped : SelectList → Bool
  | star _ => false
  | listed _ groupBy aggregates => !aggregates.isEmpty || !groupBy.isEmpty

def isAggregateItem : SelectItem → Bool
  | .expr (.call name _) => (AggregateFunction.ofName? name).isSome
  | _ => false

/-- The aggregate that an expression calls, if it calls one. -/
def aggregate? : Expr → Except Error (Option Aggregate)
  | .call name args =>
    match AggregateFunction.ofName? name, args with
    | none, _ => .ok none
    | some .count, [.star] => .ok (some { function := .count, argument := none })
    | some f, [.expr e] => .ok (some { function := f, argument := some e })
    | some f, _ => .error (.wrongArguments f.capitals (.call name args))
  | _ => .ok none

def groupColumns : List Expr → Except Error (List ColumnRef)
  | [] => .ok []
  | .column c :: rest => do
    let cs ← groupColumns rest
    return c.canonical :: cs
  | _ :: _ => .error .groupNotColumn

/-- The columns and the aggregates of a list without star.  `withAggregates` tells whether the list
has aggregates anywhere, and `after` whether one has been met. -/
def split (withAggregates after : Bool) :
    List SelectItem → Except Error (List ColumnRef × List Aggregate)
  | [] => .ok ([], [])
  | .expr e :: rest => do
    match ← aggregate? e with
    | some a =>
      let (cs, as) ← split withAggregates true rest
      return (cs, a :: as)
    | none =>
      match e with
      | .column c =>
        if after then .error .columnAfterAggregate
        else
          let (cs, as) ← split withAggregates after rest
          return (c.canonical :: cs, as)
      | _ => .error .itemNotColumn
  | _ :: _ => .error (if withAggregates then .starWithAggregates else .starNotAlone)

/-- The table of a star, if the item is one. -/
def starTable? : SelectItem → Option (Option String)
  | .star => some none
  | .tableStar t => some (some (FlatQuery.Name.canonical t))
  | .expr _ => none

/-- What SELECT items and GROUP BY expressions ask for. -/
def analyse (items : List SelectItem) (groupBy : List Expr) : Except Error SelectList :=
  match items with
  | [] => .error .nothingSelected
  | first :: rest => do
    let groupBy ← groupColumns groupBy
    match starTable? first, rest with
    | some table, [] => if groupBy.isEmpty then .ok (.star table) else .error .starWithGroup
    | _, _ =>
      let (columns, aggregates) ← split (items.any isAggregateItem) false items
      match columns.find? (!groupBy.contains ·) with
      | some missing =>
        if groupBy.isEmpty then .ok (.listed columns groupBy aggregates)
        else .error (.notGrouped missing)
      | none => .ok (.listed columns groupBy aggregates)

end SelectList

end FlatQuery
