import FlatQuery.Query.Expr

/-!
The queries that can be answered: one SELECT.
-/

namespace FlatQuery

inductive SelectItem where
  | star
  | tableStar (table : String)
  | expr (e : Expr)
  deriving Inhabited

/-- An item of the FROM list; what is not a plain table is kept as text. -/
inductive Source where
  | table (name : String)
  | other (text : String)
  deriving DecidableEq, Repr, Inhabited

structure OrderItem where
  expr : Expr
  ascending : Bool := true
  deriving Inhabited

structure Select where
  distinct : Bool := false
  items : List SelectItem := []
  sources : List Source := []
  condition : Option Expr := none
  groupBy : List Expr := []
  orderBy : List OrderItem := []
  deriving Inhabited

end FlatQuery
