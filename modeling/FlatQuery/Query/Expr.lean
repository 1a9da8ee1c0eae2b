import FlatQuery.Query.Column

/-!
Expressions of a query: columns, literals, binary operations, calls and parentheses.
-/

namespace FlatQuery

inductive Literal where
  | integer (n : Int)
  | string (s : String)
  deriving DecidableEq, Repr, Inhabited

/-- The text of a literal; a string stands between quotes as it is. -/
def Literal.text : Literal → String
  | integer n => toString n
  | string s => "'" ++ s ++ "'"

inductive BinaryOp where
  | equal
  | notEqual
  | less
  | atMost
  | greater
  | atLeast
  | and
  | or
  | plus
  | minus
  | times
  | divide
  deriving DecidableEq, Repr, Inhabited

namespace BinaryOp

def symbol : BinaryOp → String
  | equal => "="
  | notEqual => "<>"
  | less => "<"
  | atMost => "<="
  | greater => ">"
  | atLeast => ">="
  | and => "AND"
  | or => "OR"
  | plus => "+"
  | minus => "-"
  | times => "*"
  | divide => "/"

def all : List BinaryOp :=
  [equal, notEqual, less, atMost, greater, atLeast, and, or, plus, minus, times, divide]

def ofSymbol? (s : String) : Option BinaryOp :=
  all.find? (·.symbol == s)

end BinaryOp

mutual

inductive Expr where
  | column (c : ColumnRef)
  | literal (v : Literal)
  | binary (left : Expr) (op : BinaryOp) (right : Expr)
  | call (name : String) (args : List Argument)
  | nested (e : Expr)

/-- An argument of a call: an expression, or the star of `COUNT(*)`. -/
inductive Argument where
  | expr (e : Expr)
  | star

end

instance : Inhabited Expr := ⟨.literal default⟩

namespace Expr

/-! ### Text -/

mutual

/-- The text of an expression.  No parentheses are added. -/
def text : Expr → String
  | column c => c.text
  | literal v => v.text
  | binary l op r => l.text ++ " " ++ op.symbol ++ " " ++ r.text
  | call name args => name ++ "(" ++ argumentsText args ++ ")"
  | nested e => "(" ++ e.text ++ ")"

def argumentsText : List Argument → String
  | [] => ""
  | [a] => argumentText a
  | a :: rest => argumentText a ++ ", " ++ argumentsText rest

def argumentText : Argument → String
  | .expr e => e.text
  | .star => "*"

end

/-! ### Columns and tables -/

mutual

/-- The column references of an expression, from left to right. -/
def columns : Expr → List ColumnRef
  | column c => [c]
  | literal _ => []
  | binary l _ r => l.columns ++ r.columns
  | call _ args => argumentsColumns args
  | nested e => e.columns

def argumentsColumns : List Argument → List ColumnRef
  | [] => []
  | a :: rest => argumentColumns a ++ argumentsColumns rest

def argumentColumns : Argument → List ColumnRef
  | .expr e => e.columns
  | .star => []

end

/-- The tables that qualify columns of the expression, in canonical form, increasing. -/
def tables (e : Expr) : List String :=
  Name.sorted (e.columns.filterMap fun c => c.table.map Name.canonical)

/-! ### Conjunctions -/

/-- The parts of a conjunction, from left to right.  Parentheses are not looked into. -/
def conjuncts : Expr → List Expr
  | binary l .and r => l.conjuncts ++ r.conjuncts
  | e => [e]

/-- The conjunction of expressions, from the left; nothing for none. -/
def conjunction? : List Expr → Option Expr
  | [] => none
  | e :: rest => some (rest.foldl (fun acc next => binary acc .and next) e)

end Expr

end FlatQuery
