import FlatQuery.Query.Expr

/-!
Terms: expressions whose columns have been bound to fields of a row.
-/

namespace FlatQuery

/-- An expression over the fields of a row.  A call is kept only as text, so that it can be named
when it is met. -/
inductive Term where
  | literal (v : Literal)
  | field (index : Nat) (label : String)
  | binary (left : Term) (op : BinaryOp) (right : Term)
  | nested (t : Term)
  | call (text : String)
  deriving DecidableEq, Repr, Inhabited

/-- The text of a term; fields show their labels. -/
def Term.text : Term → String
  | literal v => v.text
  | field _ label => label
  | binary l op r => l.text ++ " " ++ op.symbol ++ " " ++ r.text
  | nested t => "(" ++ t.text ++ ")"
  | call text => text

end FlatQuery
